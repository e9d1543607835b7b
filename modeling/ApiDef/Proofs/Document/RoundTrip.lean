import ApiDef.Proofs.Document.Findings
import ApiDef.Proofs.Layout.Trim
set_option autoImplicit false

/-!
# Writing and reading

Entities in canonical layout are read back, but for carriage returns at the ends of lines and blanks
at the end of the text. Reading them raises the same issues again. The nesting limit stops exactly
the entities that are deeper.
-/

namespace ApiDef

open Text

namespace Layout

/-- The layout of well-formed entities is read back exactly if they fit into the nesting limit. -/
theorem yields_write {grammar : Grammar} {indentation : Indentation} {entities : List Entity}
    (valid : ∀ entity ∈ entities, entity.isWellFormed = true)
    (allowed : ∀ entity ∈ entities, entity.isAllowed grammar = true) {text : String}
    (written : text = write indentation entities) :
    (Reader.document grammar).Yields (.start text)
      (Entity.nestingOfAll entities ≤ grammar.maxNestingDepth)
      fun items _ => items.map Item.entity = Entity.rereadAll entities := by
  -- The text is the blocks of the entities with the last one trimmed, so those are what is read.
  have validTrimmed := Entity.isWellFormed_trimLast valid
  have allowedTrimmed : ∀ entity ∈ Entity.trimLast entities, entity.isAllowed grammar = true :=
    Entity.forall_mem_trimLast (fun _ _ => rfl) allowed
  have depths : Entity.nestingOfAll (Entity.trimLast entities) = Entity.nestingOfAll entities :=
    congrArg (List.foldr max 0) (Entity.map_trimLast (fun _ => rfl) entities)
  have fits := Entity.nestingOfAll_le_iff.symm.trans (iff_of_eq (congrArg
    (· ≤ grammar.maxNestingDepth) depths))
  have rest : (Cursor.start text).rest = text.toList := rfl
  have sameTrimmed : trimStart (Cursor.start text).rest
      = trimStart (Reader.blocksText indentation (Entity.trimLast entities)) := by
    rw [rest, written, trimStart_write indentation valid]
  have behind : 0 < (Cursor.start text).landed.place.line :=
    Nat.lt_of_lt_of_le Nat.zero_lt_one (Cursor.start text).line_le_landed
  have unslashed : ∀ comment ∈ ([] : List Reader.PendingComment), comment.slashed = false :=
    fun comment member => absurd member List.not_mem_nil
  refine ((Reader.yields_blocks validTrimmed allowedTrimmed unslashed sameTrimmed
    fun _ => behind).of_iff fits).mono fun items _ same => ?_
  rw [same, Entity.map_reread_trimLast]
  rfl

end Layout

/-!
## The same issues
-/

mutual

theorem Property.subjects_reread : (property : Property) →
    property.reread.subjects = property.subjects
  | .plain field => rfl
  | .inline field properties => by
    have body := Property.subjectsOfAll_rereadAll properties
    rw [reread, subjects, subjects, body]
    rfl

theorem Property.subjectsOfAll_rereadAll : (properties : List Property) →
    subjectsOfAll (rereadAll properties) = subjectsOfAll properties
  | [] => rfl
  | property :: others => by
    rw [rereadAll, subjectsOfAll, subjectsOfAll, Property.subjects_reread property,
      Property.subjectsOfAll_rereadAll others]

end

theorem Entity.subjects_reread (entity : Entity) : entity.reread.subjects = entity.subjects := by
  cases entity with
  | comment text => rfl
  | enumeration declared => rfl
  | dataType declared =>
    simp only [reread, subjects, Property.subjectsOfAll_rereadAll]
  | method declared => rfl

theorem Walk.issues_rereadAll (options : Options) (patternFault? : String → Option String)
    (entities : List Entity) :
    issues options patternFault? (Entity.rereadAll entities) = issues options patternFault? entities := by
  have same : (Entity.rereadAll entities).map Entity.subjects = entities.map Entity.subjects := by
    rw [← Entity.map_reread_trimLast, List.map_map]
    have sameSubjects : Entity.subjects ∘ Entity.reread = Entity.subjects :=
      funext Entity.subjects_reread
    rw [sameSubjects]
    exact Entity.map_trimLast (fun _ => rfl) entities
  have flat : (Entity.rereadAll entities).flatMap Entity.subjects
      = entities.flatMap Entity.subjects := by
    rw [List.flatMap_def, List.flatMap_def, same]
  rw [issues, issues, ← Question.Subject.issuesOfAll_entities, flat,
    Question.Subject.issuesOfAll_entities]

namespace Document

variable {patternFault? : String → Option String} {options : Options}

/-- Entities that can be read are read from their layout. -/
theorem exists_outcome_write {grammar : Grammar} (indentation : Indentation) {entities : List Entity}
    (valid : ∀ entity ∈ entities, entity.isWellFormed = true)
    (allowed : ∀ entity ∈ entities, entity.isAllowed grammar = true)
    (fits : Entity.nestingOfAll entities ≤ grammar.maxNestingDepth) :
    ∃ items after asked,
      outcome grammar (Layout.write indentation entities) = .done items after asked
        ∧ items.map Item.entity = Entity.rereadAll entities := by
  have yields := Layout.yields_write valid allowed (rfl : Layout.write indentation entities = _)
  rw [Reader.Yields] at yields
  cases ran : outcome grammar (Layout.write indentation entities) with
  | done items after asked =>
    rw [outcome] at ran
    rw [ran] at yields
    exact ⟨items, after, asked, rfl, yields.2⟩
  | failed fault asked =>
    rw [outcome] at ran
    rw [ran] at yields
    exact absurd fits yields.1

theorem exists_tooDeep_write {grammar : Grammar} (indentation : Indentation) {entities : List Entity}
    (valid : ∀ entity ∈ entities, entity.isWellFormed = true)
    (allowed : ∀ entity ∈ entities, entity.isAllowed grammar = true)
    (deeper : grammar.maxNestingDepth < Entity.nestingOfAll entities) :
    ∃ fault asked, outcome grammar (Layout.write indentation entities) = .failed fault asked
      ∧ (ReadError.fault fault).kind = .security := by
  have yields := Layout.yields_write valid allowed (rfl : Layout.write indentation entities = _)
  rw [Reader.Yields] at yields
  cases ran : outcome grammar (Layout.write indentation entities) with
  | done items after asked =>
    rw [outcome] at ran
    rw [ran] at yields
    exact absurd yields.1 (Nat.not_le_of_lt deeper)
  | failed fault asked =>
    rw [outcome] at ran
    rw [ran] at yields
    obtain ⟨-, limit, cause⟩ := yields
    obtain ⟨found, place⟩ := fault
    obtain rfl : found = .tooDeep limit := cause
    exact ⟨_, asked, rfl, rfl⟩

/-- Writing and reading again keeps the issues and, but for carriage returns at the ends of lines and
blanks at the end of the text, the entities. -/
theorem read_write_of_read {text : String} {document : Document}
    (read : readWith patternFault? options text = .ok document) (indentation : Indentation) :
    ∃ again, readWith patternFault? options (Layout.write indentation document.entities) = .ok again
      ∧ again.findings.map Finding.issue = document.findings.map Finding.issue
      ∧ again.findings.map (fun finding => (finding.severity, finding.message))
        = document.findings.map (fun finding => (finding.severity, finding.message))
      ∧ again.entities = Entity.rereadAll document.entities := by
  obtain ⟨after, asked, ran, found, strict⟩ := readWith_eq_ok read
  obtain ⟨content, -⟩ := content_of_outcome ran
  have valid : ∀ entity ∈ document.entities, entity.isWellFormed = true :=
    List.forall_mem_map.mpr fun item member => (content item member).1
  have allowed : ∀ entity ∈ document.entities, entity.isAllowed options.grammar = true :=
    List.forall_mem_map.mpr fun item member => (content item member).2.1
  have fits : Entity.nestingOfAll document.entities ≤ options.grammar.maxNestingDepth :=
    Entity.nestingOfAll_le_iff.mpr
      (List.forall_mem_map.mpr fun item member => (content item member).2.2)
  obtain ⟨items, final, askedAgain, ranAgain, same⟩ :=
    exists_outcome_write indentation valid allowed fits
  have sameIssues : (findingsAbout patternFault? options askedAgain).map Finding.issue
      = document.findings.map Finding.issue := by
    rw [issues_findingsAbout ranAgain, same, Walk.issues_rereadAll, found, issues_findingsAbout ran]
    rfl
  -- Strict reading came to its end without issues, so there are none to stop at now.
  have clean : options.softErrors = true ∨ findingsAbout patternFault? options askedAgain = [] := by
    cases soft : options.softErrors with
    | true => exact .inl rfl
    | false =>
      rw [strict soft, List.map_nil, List.map_eq_nil_iff] at sameIssues
      exact .inr sameIssues
  have readAgain := readWith_of_done ranAgain clean
  refine ⟨⟨items, findingsAbout patternFault? options askedAgain⟩, readAgain, sameIssues, ?_, same⟩
  have sameTexts := congrArg (List.map fun issue : Issue => (issue.severity, issue.message)) sameIssues
  rw [List.map_map, List.map_map] at sameTexts
  exact sameTexts

theorem read_write_of_read_carriageReturns :
    ∃ document,
      readWith (fun _ => none) { Options.permissive with softErrors := true }
        "//a\r\r\nBox \x7b kid: [\x7b bag: Bag<string> \x7d] \x7d\n# end " = .ok document
      ∧ ∀ indentation, ∃ again,
        readWith (fun _ => none) { Options.permissive with softErrors := true }
          (Layout.write indentation document.entities) = .ok again
        ∧ again.findings.map Finding.issue = document.findings.map Finding.issue
        ∧ again.findings.map (fun finding => (finding.severity, finding.message))
          = document.findings.map (fun finding => (finding.severity, finding.message))
        ∧ again.entities = Entity.rereadAll document.entities := by
  have isRead : (readWith (fun _ => none) { Options.permissive with softErrors := true }
      "//a\r\r\nBox \x7b kid: [\x7b bag: Bag<string> \x7d] \x7d\n# end ").toOption.isSome = true := by
    decide +kernel
  cases read : readWith (fun _ => none) { Options.permissive with softErrors := true }
      "//a\r\r\nBox \x7b kid: [\x7b bag: Bag<string> \x7d] \x7d\n# end " with
  | error error =>
    rw [read] at isRead
    cases isRead
  | ok document => exact ⟨document, rfl, fun indentation => read_write_of_read read indentation⟩

/-- Well-formed entities are read back unchanged if they fit into the nesting limit, and stop the
reading for being too deep if they do not. -/
theorem read_write_of_wellFormed (patternFault? : String → Option String) (options : Options)
    (soft : options.softErrors = true) (methods : options.methods = true)
    (types : options.types = true) {entities : List Entity}
    (wellFormed : Entity.AreWellFormed entities) (indentation : Indentation) :
    (Entity.nestingOfAll entities ≤ options.maxNestingDepth →
      ∃ document,
        readWith patternFault? options (Layout.write indentation entities) = .ok document
          ∧ document.entities = entities)
    ∧ (options.maxNestingDepth < Entity.nestingOfAll entities →
      ∃ error, readWith patternFault? options (Layout.write indentation entities) = .error error
        ∧ error.kind = .security) := by
  have allowed : ∀ entity ∈ entities, entity.isAllowed options.grammar = true := by
    intro entity _
    cases entity with
    | comment text => rfl
    | enumeration declared => exact types
    | dataType declared => exact types
    | method declared => exact methods
  constructor
  · intro fits
    obtain ⟨items, after, asked, ran, same⟩ :=
      exists_outcome_write indentation wellFormed.spelled allowed fits
    have read : readWith patternFault? options (Layout.write indentation entities)
        = .ok ⟨items, findingsAbout patternFault? options asked⟩ :=
      readWith_of_done ran (.inl soft)
    exact ⟨_, read, same.trans (Entity.rereadAll_eq wellFormed)⟩
  · intro deeper
    obtain ⟨fault, asked, ran, security⟩ :=
      exists_tooDeep_write indentation wellFormed.spelled allowed deeper
    refine ⟨.fault fault, ?_, security⟩
    rw [readWith_eq]
    simp only [ran, soft]

/-- A comment, and a data type of three levels. -/
def nestedEntities : List Entity :=
  [.comment " boxes",
    .dataType ⟨"Box", some "First\n second", [⟨"@Table", ["x\n\"y"], ∅⟩],
      [.inline ⟨"kid", .listOf TypeRef.objectName, some "", some "0.50", []⟩
        [.plain ⟨"bag", .mk "Bag" true [.simple "string", .listOf "Box"], none, none, []⟩],
      .inline (.bare "none" (.simple TypeRef.objectName)) []]⟩]

theorem read_write_of_nestedEntities :
    (∃ document,
      readWith (fun _ => none) { Options.permissive with softErrors := true, maxNestingDepth := 3 }
        (Layout.write (.spaces 2) nestedEntities) = .ok document
      ∧ document.entities = nestedEntities)
    ∧ ∃ error,
      readWith (fun _ => none) { Options.permissive with softErrors := true, maxNestingDepth := 2 }
        (Layout.write .tab nestedEntities) = .error error
      ∧ error.kind = .security := by
  have wellFormed : Entity.AreWellFormed nestedEntities := by
    refine ⟨by decide +kernel, by decide +kernel, ?_⟩
    intro text c last
    cases last
  have levels : Entity.nestingOfAll nestedEntities = 3 := by decide +kernel
  obtain ⟨fitting, -⟩ := read_write_of_wellFormed (fun _ => none)
    { Options.permissive with softErrors := true, maxNestingDepth := 3 } rfl rfl rfl wellFormed (.spaces 2)
  obtain ⟨-, tooDeep⟩ := read_write_of_wellFormed (fun _ => none)
    { Options.permissive with softErrors := true, maxNestingDepth := 2 } rfl rfl rfl wellFormed .tab
  rw [levels] at fitting tooDeep
  exact ⟨fitting (Nat.le_refl 3), tooDeep (Nat.lt_succ_self 2)⟩

end Document

end ApiDef
