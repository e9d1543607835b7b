import ApiDef.Proofs.Document.Interleaving
import ApiDef.Proofs.Reader.DocumentContent
set_option autoImplicit false

/-!
# Findings of documents

The findings of a document are those of a walk over its entities. Soft and strict reading differ only
in what they do with the first finding.
-/

namespace ApiDef.Document

open Text

variable {patternFault? : String → Option String} {options : Options} {text : String} {document : Document}

/-- A text is a document if the reader comes to its end, and strict reading has found nothing. -/
theorem readWith_eq_ok (read : readWith patternFault? options text = .ok document) :
    ∃ after asked, outcome options.grammar text = .done document.items after asked
      ∧ document.findings = findingsAbout patternFault? options asked
      ∧ (options.softErrors = false → document.findings = []) := by
  rw [readWith_eq] at read
  cases ran : outcome options.grammar text with
  | failed fault asked =>
    simp only [ran, Outcome.asked] at read
    split at read
    next => cases read
    next same _ => cases same
    next => cases read
  | done items after asked =>
    simp only [ran, Outcome.asked] at read
    cases soft : options.softErrors with
    | true =>
      simp only [soft] at read
      cases read
      exact ⟨after, asked, rfl, rfl, fun strict => absurd strict (by decide)⟩
    | false =>
      cases found : findingsAbout patternFault? options asked with
      | nil =>
        simp only [soft, found] at read
        cases read
        exact ⟨after, asked, rfl, found.symm, fun _ => rfl⟩
      | cons first later =>
        simp only [soft, found] at read
        cases read

/-- A document that the reader comes to the end of is read if nothing is found or findings are
collected. -/
theorem readWith_of_done {items : List Item} {after : Cursor} {asked : List Question}
    (ran : outcome options.grammar text = .done items after asked)
    (clean : options.softErrors = true ∨ findingsAbout patternFault? options asked = []) :
    readWith patternFault? options text = .ok ⟨items, findingsAbout patternFault? options asked⟩ := by
  rw [readWith_eq]
  simp only [ran, Outcome.asked]
  cases soft : options.softErrors with
  | true => rfl
  | false =>
    rcases clean with collected | nothing
    · exact absurd (soft.symm.trans collected) (by decide)
    · simp only [nothing]

/-- Whether characters are read without findings, and what they contain passes a check. -/
def readsCleanly (patternFault? : String → Option String) (options : Options) (check : List Entity → Bool)
    (cs : List Char) : Bool :=
  match (Reader.document options.grammar).run ⟨cs, .origin⟩ with
  | .done items _ asked =>
    (findingsAbout patternFault? options asked).isEmpty && check (items.map Item.entity)
  | .failed _ _ => false

theorem exists_of_readsCleanly (check : List Entity → Bool) {cs : List Char}
    (cleanly : readsCleanly patternFault? options check cs = true) :
    ∃ document, readWith patternFault? options (String.ofList cs) = .ok document
      ∧ check document.entities = true := by
  have same : outcome options.grammar (String.ofList cs)
      = (Reader.document options.grammar).run ⟨cs, .origin⟩ := by
    rw [outcome, Cursor.start, String.toList_ofList]
  unfold readsCleanly at cleanly
  cases ran : (Reader.document options.grammar).run ⟨cs, .origin⟩ with
  | failed fault asked =>
    rw [ran] at cleanly
    cases cleanly
  | done items after asked =>
    rw [ran] at cleanly same
    obtain ⟨nothing, passes⟩ := Bool.and_eq_true_iff.mp cleanly
    exact ⟨_, readWith_of_done same (.inr (List.isEmpty_iff.mp nothing)), passes⟩

theorem content_of_outcome {grammar : Grammar} {items : List Item} {after : Cursor}
    {asked : List Question} (ran : outcome grammar text = .done items after asked) :
    Reader.DocumentContent grammar items asked :=
  Reader.ensures_document grammar _ _ _ _ ran

/-- Nothing is found exactly if nothing is wrong with what the questions are about. -/
theorem findingsAbout_eq_nil_iff {asked : List Question} : findingsAbout patternFault? options asked = []
    ↔ Question.Subject.issuesOfAll patternFault? options (.ofSignatures options.validTypes)
        (asked.map Question.subject) = [] := by
  rw [← Question.issues_findingsOfAll, List.map_eq_nil_iff, findingsAbout]

/-- The issues that answer the questions of a reading are those of the walk over its items. -/
theorem issues_findingsAbout {grammar : Grammar} {items : List Item} {after : Cursor}
    {asked : List Question} (ran : outcome grammar text = .done items after asked) :
    (findingsAbout patternFault? options asked).map Finding.issue
      = Walk.issues options patternFault? (items.map Item.entity) := by
  have subjects := (content_of_outcome ran).2
  rw [← List.flatMap_map Item.entity Entity.subjects] at subjects
  rw [findingsAbout, Question.issues_findingsOfAll, subjects,
    Question.Subject.issuesOfAll_entities, Walk.issues]

theorem content_of_read (read : readWith patternFault? options text = .ok document) :
    (∀ entity ∈ document.entities, entity.isWellFormed = true)
      ∧ (∀ entity ∈ document.entities, entity.isAllowed options.grammar = true)
      ∧ Entity.nestingOfAll document.entities ≤ options.maxNestingDepth := by
  obtain ⟨after, asked, ran, -, -⟩ := readWith_eq_ok read
  obtain ⟨content, -⟩ := content_of_outcome ran
  refine ⟨?_, ?_, Entity.nestingOfAll_le_iff.mpr ?_⟩
  · exact List.forall_mem_map.mpr fun item member => (content item member).1
  · exact List.forall_mem_map.mpr fun item member => (content item member).2.1
  · exact List.forall_mem_map.mpr fun item member => (content item member).2.2

/-- Strict reading gives a document only when the walk finds nothing. -/
theorem issues_of_strict_read (strict : options.softErrors = false)
    (read : readWith patternFault? options text = .ok document) :
    Walk.issues options patternFault? document.entities = [] := by
  obtain ⟨after, asked, ran, found, nothing⟩ := readWith_eq_ok read
  rw [entities, ← issues_findingsAbout ran, ← found, nothing strict]
  rfl

theorem findings_softErrors (soft : Bool) (table : TypeTable) (asked : List Question) :
    Question.findingsOfAll patternFault? { options with softErrors := soft } table asked
      = Question.findingsOfAll patternFault? options table asked := by
  induction asked generalizing table with
  | nil => rfl
  | cons question others ih =>
    simp only [Question.findingsOfAll, ih]
    congr 1

theorem findingsAbout_softErrors (soft : Bool) (asked : List Question) :
    findingsAbout patternFault? { options with softErrors := soft } asked
      = findingsAbout patternFault? options asked :=
  findings_softErrors soft _ asked

/-- Soft reading gives every text that the reader comes to the end of. -/
theorem readWith_soft : readWith patternFault? { options with softErrors := true } text
    = match outcome options.grammar text with
      | .done items _ asked => .ok ⟨items, findingsAbout patternFault? options asked⟩
      | .failed fault _ => .error (.fault fault) := by
  have sameGrammar : Options.grammar { options with softErrors := true } = options.grammar := rfl
  simp only [readWith_eq, findingsAbout_softErrors, sameGrammar]
  cases outcome options.grammar text <;> rfl

/-- Strict reading looks at the first finding before it looks at how the reader ended. -/
theorem readWith_strict : readWith patternFault? { options with softErrors := false } text
    = match findingsAbout patternFault? options (outcome options.grammar text).asked with
      | first :: _ => .error (.finding first)
      | [] =>
        match outcome options.grammar text with
        | .done items _ _ => .ok ⟨items, []⟩
        | .failed fault _ => .error (.fault fault) := by
  have sameGrammar : Options.grammar { options with softErrors := false } = options.grammar := rfl
  simp only [readWith_eq, findingsAbout_softErrors, sameGrammar]
  cases findingsAbout patternFault? options (outcome options.grammar text).asked with
  | cons first later => rfl
  | nil => cases outcome options.grammar text <;> rfl

theorem outcome_of_soft
    (read : readWith patternFault? { options with softErrors := true } text = .ok document) :
    ∃ after asked, outcome options.grammar text = .done document.items after asked
      ∧ findingsAbout patternFault? options asked = document.findings := by
  obtain ⟨after, asked, ran, found, -⟩ := readWith_eq_ok read
  rw [findingsAbout_softErrors] at found
  exact ⟨after, asked, ran, found.symm⟩

theorem strict_of_clean
    (read : readWith patternFault? { options with softErrors := true } text = .ok document)
    (clean : document.findings = []) :
    readWith patternFault? { options with softErrors := false } text = .ok document := by
  obtain ⟨after, asked, ran, found⟩ := outcome_of_soft read
  obtain ⟨items, findings⟩ := document
  obtain rfl : findings = [] := clean
  rw [readWith_strict, ran, Outcome.asked, found]

theorem strict_of_found {first : Finding} {later : List Finding}
    (read : readWith patternFault? { options with softErrors := true } text = .ok document)
    (nonempty : document.findings = first :: later) :
    readWith patternFault? { options with softErrors := false } text = .error (.finding first) := by
  obtain ⟨after, asked, ran, found⟩ := outcome_of_soft read
  rw [readWith_strict, ran, Outcome.asked, found, nonempty]

theorem strict_of_failed {error : ReadError}
    (read : readWith patternFault? { options with softErrors := true } text = .error error) :
    readWith patternFault? { options with softErrors := false } text = .error error
      ∨ ∃ first, readWith patternFault? { options with softErrors := false } text
        = .error (.finding first) := by
  rw [readWith_soft] at read
  rw [readWith_strict]
  cases ran : outcome options.grammar text with
  | done items after asked =>
    rw [ran] at read
    cases read
  | failed fault asked =>
    rw [ran] at read
    cases read
    rw [Outcome.asked]
    cases findingsAbout patternFault? options asked with
    | nil => exact .inl rfl
    | cons first later => exact .inr ⟨first, rfl⟩

/-- Soft reading without findings is strict reading; the first finding of soft reading is where strict
reading stops; where soft reading fails, strict reading fails likewise or stops at a finding. -/
theorem strict_reading_stops_at_first_finding (patternFault? : String → Option String) (options : Options)
    (text : String) :
    (∀ document, readWith patternFault? { options with softErrors := true } text = .ok document →
      document.findings = [] →
      readWith patternFault? { options with softErrors := false } text = .ok document)
    ∧ (∀ document first later,
      readWith patternFault? { options with softErrors := true } text = .ok document →
      document.findings = first :: later →
      ∃ error, readWith patternFault? { options with softErrors := false } text = .error error
        ∧ error.kind = .semantic ∧ error.message = first.message ∧ error.place = first.place)
    ∧ (∀ error, readWith patternFault? { options with softErrors := true } text = .error error →
      readWith patternFault? { options with softErrors := false } text = .error error
        ∨ ∃ other, readWith patternFault? { options with softErrors := false } text = .error other
          ∧ other.kind = .semantic)
    ∧ ∀ document, readWith patternFault? { options with softErrors := false } text = .ok document →
      document.findings = [] := by
  refine ⟨?_, ?_, ?_, ?_⟩
  · intro document read clean
    exact strict_of_clean read clean
  · intro document first later read found
    exact ⟨.finding first, strict_of_found read found, rfl, rfl, rfl⟩
  · intro error read
    rcases strict_of_failed read with same | ⟨first, stopped⟩
    · exact .inl same
    · exact .inr ⟨.finding first, stopped, rfl⟩
  · intro document read
    obtain ⟨after, asked, ran, found, strict⟩ := readWith_eq_ok read
    exact strict rfl

theorem strict_reading_stops_at_unknown_type :
    ∃ document first,
      readWith (fun _ => none) { Options.permissive with softErrors := true }
        "Box \x7b bag: Bag \x7d" = .ok document
      ∧ document.findings = [first]
      ∧ ∃ error,
        readWith (fun _ => none) { Options.permissive with softErrors := false }
          "Box \x7b bag: Bag \x7d" = .error error
        ∧ error.kind = .semantic ∧ error.message = first.message ∧ error.place = first.place := by
  have one : ((readWith (fun _ => none) { Options.permissive with softErrors := true }
      "Box \x7b bag: Bag \x7d").toOption.map fun document => document.findings.length) = some 1 := by
    decide +kernel
  cases read : readWith (fun _ => none) { Options.permissive with softErrors := true }
      "Box \x7b bag: Bag \x7d" with
  | error error =>
    rw [read] at one
    cases one
  | ok document =>
    simp only [read, Except.toOption, Option.map_some, Option.some.injEq,
      List.length_eq_one_iff] at one
    obtain ⟨first, found⟩ := one
    obtain ⟨-, stops, -⟩ := strict_reading_stops_at_first_finding (fun _ => none)
      Options.permissive "Box \x7b bag: Bag \x7d"
    exact ⟨document, first, rfl, found, stops document first [] read found⟩

/-!
## What findings cannot change
-/

/-- Which names are known, which tags may stand where and whether routes are checked is no matter of
reading: soft reading under other such options gives the same entities with the same spans, or stops at
the same error. -/
theorem soft_reading_keeps_items (patternFault? otherFault? : String → Option String) (options other : Options)
    (text : String) :
    (∃ document otherDocument,
      readWith patternFault? { options with softErrors := true } text = .ok document
      ∧ readWith otherFault? { other with
          methods := options.methods, types := options.types,
          maxNestingDepth := options.maxNestingDepth, softErrors := true } text = .ok otherDocument
      ∧ document.entities = otherDocument.entities ∧ document.spans = otherDocument.spans)
    ∨ ∃ error,
      readWith patternFault? { options with softErrors := true } text = .error error
      ∧ readWith otherFault? { other with
          methods := options.methods, types := options.types,
          maxNestingDepth := options.maxNestingDepth, softErrors := true } text = .error error := by
  have here := @readWith_soft patternFault? options text
  have there := @readWith_soft otherFault? { other with
    methods := options.methods, types := options.types,
    maxNestingDepth := options.maxNestingDepth } text
  have sameGrammar : Options.grammar { other with
      methods := options.methods, types := options.types,
      maxNestingDepth := options.maxNestingDepth } = options.grammar := rfl
  rw [sameGrammar] at there
  cases ran : outcome options.grammar text with
  | done items after asked =>
    rw [ran] at here there
    exact .inl ⟨_, _, here, there, rfl, rfl⟩
  | failed fault asked =>
    rw [ran] at here there
    exact .inr ⟨_, here, there⟩

end ApiDef.Document
