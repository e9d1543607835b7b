import ApiDef.Proofs.Document.Findings
import ApiDef.Proofs.Reader.DocumentsInParallel
set_option autoImplicit false

/-!
# Line endings

A text whose lines end with carriage returns and line feeds is read like the text whose lines end with
line feeds. All that differs is how far a comment reaches on its line, and what a message says was found.
-/

namespace ApiDef

open Text

/-- The text with a carriage return in front of each line feed. -/
def withCarriageReturns (text : String) : String :=
  String.ofList (text.toList.flatMap fun c => if c = '\n' then ['\r', '\n'] else [c])

/-- Carriage returns are written in place, with nothing behind the text. -/
def Text.Respelling.carriageReturns : Respelling :=
  ⟨true, 0, [], breaks_nil⟩

theorem toList_withCarriageReturns (text : String) :
    (withCarriageReturns text).toList = Respelling.carriageReturns.text text.toList := by
  have char : ∀ c, Respelling.carriageReturns.char c = if c = '\n' then ['\r', '\n'] else [c] := by
    intro c
    simp [Respelling.char, Respelling.carriageReturns]
  rw [withCarriageReturns, String.toList_ofList, Respelling.text, Respelling.chars, funext char]
  exact (List.append_nil _).symm

/-- Documents with the same entities and findings at the same places, where comments may end in other
columns. -/
structure Document.DiffersInCommentEnds (document other : Document) : Prop where
  entities : other.entities = document.entities
  findings : other.findings = document.findings
  spans : List.Forall₂ (fun item again : Item => again.span.start = item.span.start
    ∧ again.span.stop.line = item.span.stop.line
    ∧ (item.entity.isComment = false → again.span = item.span)) document.items other.items

namespace Document

variable {patternFault? : String → Option String} {options : Options} {text : String}

theorem differsInCommentEnds {items again : List Item} (findings : List Finding)
    (follow : List.Forall₂ (Item.Follows .carriageReturns) items again) :
    DiffersInCommentEnds ⟨items, findings⟩ ⟨again, findings⟩ := by
  constructor
  · induction follow with
    | nil => rfl
    | cons here _ ih =>
      rw [entities, entities, List.map_cons, List.map_cons, here.entity]
      exact congrArg _ ih
  · rfl
  · exact follow.imp fun _ _ here => ⟨here.start, here.stopLine, fun declared => here.span (.inr declared)⟩

/-- The outcomes of reading both texts follow each other. -/
theorem parallel_outcome (grammar : Grammar) (plain : '\r' ∉ text.toList) :
    Reader.Parallel .carriageReturns Reader.never
      (Reader.Both .carriageReturns (List.Forall₂ (Item.Follows .carriageReturns)))
      (outcome grammar text) (outcome grammar (withCarriageReturns text)) := by
  apply Reader.inParallel_documentFrom grammar rfl
  · exact ⟨.nil, rfl⟩
  · exact .aligned ⟨toList_withCarriageReturns text, rfl, fun _ => plain⟩

/-- Line endings do not matter: both texts are read, or reading both fails on the same line for the same
kind of reason. -/
theorem readWith_withCarriageReturns (patternFault? : String → Option String) (options : Options) (text : String)
    (plain : '\r' ∉ text.toList) :
    (∃ document other, readWith patternFault? options text = .ok document
      ∧ readWith patternFault? options (withCarriageReturns text) = .ok other
      ∧ document.DiffersInCommentEnds other)
    ∨ ∃ error other, readWith patternFault? options text = .error error
      ∧ readWith patternFault? options (withCarriageReturns text) = .error other
      ∧ other.kind = error.kind ∧ other.place.start.line = error.place.start.line := by
  have parallel := parallel_outcome options.grammar plain
  rw [readWith_eq, readWith_eq]
  generalize outcome options.grammar text = here at parallel ⊢
  generalize outcome options.grammar (withCarriageReturns text) = there at parallel ⊢
  cases parallel with
  | lost goesOn => exact absurd rfl goesOn
  | cut goesOn => exact absurd rfl goesOn
  | @done items again _ _ asked both =>
    simp only [Outcome.asked, Respelling.carriageReturns, Question.map_down_zero]
    have differs := differsInCommentEnds (findingsAbout patternFault? options asked) both.1
    cases options.softErrors with
    | true => exact .inl ⟨_, _, rfl, rfl, differs⟩
    | false =>
      cases found : findingsAbout patternFault? options asked with
      | nil => exact .inl ⟨_, _, rfl, rfl, found ▸ differs⟩
      | cons first later => exact .inr ⟨_, _, rfl, rfl, rfl, rfl⟩
  | @failed fault recurring asked recurs =>
    simp only [Outcome.asked, Respelling.carriageReturns, Question.map_down_zero]
    have sameFault : ∃ error other, Except.error (.fault fault) = (.error error : Except ReadError Document)
        ∧ Except.error (.fault recurring) = (.error other : Except ReadError Document)
        ∧ other.kind = error.kind ∧ other.place.start.line = error.place.start.line :=
      ⟨_, _, rfl, rfl, recurs.kind, recurs.line⟩
    cases options.softErrors with
    | true => exact .inr sameFault
    | false =>
      cases findingsAbout patternFault? options asked with
      | nil => exact .inr sameFault
      | cons first later => exact .inr ⟨_, _, rfl, rfl, rfl, rfl⟩

/-- Comments stand above, behind and in the declaration, and the default value is a string. -/
def multilineText : String :=
  "# loose\n// Boxes.\nBox \x7b // here\n  // Its name.\n  name: string = \"n\"\n  bag: Bag\n\x7d // end\n"

/-- The string of this text does not end on its line. -/
def brokenStringText : String := "Box \x7b\n  name: string = \"n\n\x7d"

theorem readWith_withCarriageReturns_multilineText :
    (∃ document other,
      readWith (fun _ => none) { Options.permissive with softErrors := true } multilineText = .ok document
      ∧ readWith (fun _ => none) { Options.permissive with softErrors := true }
        (withCarriageReturns multilineText) = .ok other
      ∧ document.DiffersInCommentEnds other ∧ document.findings.length = 1
      ∧ document.spans ≠ other.spans)
    ∧ ∃ error other,
      readWith (fun _ => none) { Options.permissive with softErrors := true } brokenStringText
        = .error error
      ∧ readWith (fun _ => none) { Options.permissive with softErrors := true }
        (withCarriageReturns brokenStringText) = .error other
      ∧ other.kind = error.kind ∧ other.place.start.line = error.place.start.line
      ∧ error.place.start.line = 2 := by
  constructor
  · have oneFinding : (readWith (fun _ => none) { Options.permissive with softErrors := true }
        multilineText).toOption.map (fun document => document.findings.length) = some 1 := by
      decide +kernel
    have grows : (readWith (fun _ => none) { Options.permissive with softErrors := true }
        multilineText).toOption.map spans
        ≠ (readWith (fun _ => none) { Options.permissive with softErrors := true }
          (withCarriageReturns multilineText)).toOption.map spans := by
      decide +kernel
    rcases readWith_withCarriageReturns (fun _ => none) { Options.permissive with softErrors := true }
        multilineText (by decide +kernel) with
      ⟨document, other, read, readAgain, differs⟩ | ⟨error, -, refused, -⟩
    · rw [read] at oneFinding grows
      rw [readAgain] at grows
      exact ⟨document, other, read, readAgain, differs, Option.some.inj oneFinding,
        fun same => grows (congrArg some same)⟩
    · rw [refused] at oneFinding
      cases oneFinding
  · have refused : readWith (fun _ => none) { Options.permissive with softErrors := true } brokenStringText
        = .error (.fault ⟨.unexpected [.mark "\"", .character] (some '\n'), ⟨⟨2, 20⟩, ⟨3, 1⟩⟩⟩) := by
      decide +kernel
    rcases readWith_withCarriageReturns (fun _ => none) { Options.permissive with softErrors := true }
        brokenStringText (by decide +kernel) with
      ⟨document, -, read, -⟩ | ⟨error, other, read, readAgain, kind, line⟩
    · rw [refused] at read
      cases read
    · refine ⟨error, other, read, readAgain, kind, line, ?_⟩
      rw [refused] at read
      cases read
      rfl

end Document

end ApiDef
