import ApiDef.Proofs.Check.Growth
import ApiDef.Proofs.Document.Findings
import ApiDef.Proofs.Reader.DocumentsInSequence
set_option autoImplicit false

/-!
# Composition

Two texts that are documents are one document with an empty line between them. Nothing leaks over the
seam: comments at the end of the first text describe nothing in the second one, and the types that the
first one declares make nothing wrong in the second one.
-/

namespace ApiDef

open Text

theorem Question.subject_down (lines : Nat) (question : Question) :
    (question.down lines).subject = question.subject := by
  cases question with
  | tags site found => exact congrArg (Subject.tags site) (map_fst_tagsDown lines found)
  | declare => rfl
  | type => rfl
  | route => rfl

namespace Document

variable {patternFault? : String → Option String} {options : Options}

/-- Nothing is found about two texts in a row if nothing is found about each of them. -/
theorem findingsAbout_append_eq_nil {asked laterAsked : List Question} (lines : Nat)
    (clean : findingsAbout patternFault? options asked = [])
    (laterClean : findingsAbout patternFault? options laterAsked = []) :
    findingsAbout patternFault? options (asked ++ laterAsked.map (Question.down lines)) = [] := by
  rw [findingsAbout_eq_nil_iff] at clean laterClean ⊢
  have sameSubjects : (laterAsked.map (Question.down lines)).map Question.subject
      = laterAsked.map Question.subject := by
    rw [List.map_map]
    exact List.map_congr_left fun question _ => Question.subject_down lines question
  rw [List.map_append, sameSubjects]
  exact Question.Subject.issuesOfAll_append_eq_nil clean laterClean

/-- Two documents with an empty line between them are read as one document. It has the entities of both,
and the spans of the second one are moved down behind the first one. -/
theorem readWith_append (patternFault? : String → Option String) (options : Options) (text later : String)
    (document laterDocument : Document) (read : readWith patternFault? options text = .ok document)
    (laterRead : readWith patternFault? options later = .ok laterDocument) :
    ∃ whole, readWith patternFault? options (text ++ "\n\n" ++ later) = .ok whole
      ∧ whole.entities = document.entities ++ laterDocument.entities
      ∧ whole.spans
        = document.spans ++ laterDocument.spans.map (Span.down (text.toList.count '\n' + 2)) := by
  obtain ⟨after, asked, ran, found, strict⟩ := readWith_eq_ok read
  obtain ⟨laterAfter, laterAsked, laterRan, laterFound, laterStrict⟩ := readWith_eq_ok laterRead
  obtain ⟨last, wholeRan⟩ := Reader.run_document_append options.grammar ran laterRan
  have clean : options.softErrors = true ∨ findingsAbout patternFault? options
      (asked ++ laterAsked.map (Question.down (text.toList.count '\n' + 2))) = [] := by
    cases soft : options.softErrors with
    | true => exact .inl rfl
    | false =>
      rw [found] at strict
      rw [laterFound] at laterStrict
      exact .inr (findingsAbout_append_eq_nil _ (strict soft) (laterStrict soft))
  refine ⟨_, readWith_of_done wholeRan clean, ?_, ?_⟩
  · rw [entities, List.map_append, List.map_map]
    rfl
  · rw [spans, List.map_append, List.map_map, spans, spans, List.map_map]
    rfl

/-- The comment at the end is right above what stands behind the seam, but for the empty line. -/
def boxText : String := "// Boxes.\nBox \x7b\n  name: string\n\x7d\n// loose"

def bagText : String := "// Bags.\nBag \x7b kid: Bag \x7d"

theorem readWith_append_boxText : ∃ document laterDocument whole,
    readWith (fun _ => none) Options.permissive boxText = .ok document
    ∧ readWith (fun _ => none) Options.permissive bagText = .ok laterDocument
    ∧ readWith (fun _ => none) Options.permissive (boxText ++ "\n\n" ++ bagText) = .ok whole
    ∧ whole.entities = document.entities ++ laterDocument.entities
    ∧ whole.spans = document.spans ++ laterDocument.spans.map (Span.down 6)
    ∧ whole.entities.length = 3 := by
  have boxRead : ((readWith (fun _ => none) Options.permissive boxText).toOption.map
      fun document => document.entities.length) = some 2 := by
    decide +kernel
  have bagRead : ((readWith (fun _ => none) Options.permissive bagText).toOption.map
      fun document => document.entities.length) = some 1 := by
    decide +kernel
  cases read : readWith (fun _ => none) Options.permissive boxText with
  | error =>
    rw [read] at boxRead
    cases boxRead
  | ok document =>
    cases laterRead : readWith (fun _ => none) Options.permissive bagText with
    | error =>
      rw [laterRead] at bagRead
      cases bagRead
    | ok laterDocument =>
      rw [read] at boxRead
      rw [laterRead] at bagRead
      have lines : boxText.toList.count '\n' + 2 = 6 := by decide +kernel
      obtain ⟨whole, wholeRead, entities, spans⟩ := readWith_append (fun _ => none) Options.permissive
        boxText bagText document laterDocument read laterRead
      rw [lines] at spans
      refine ⟨document, laterDocument, whole, rfl, rfl, wholeRead, entities, spans, ?_⟩
      have two : document.entities.length = 2 := Option.some.inj boxRead
      have one : laterDocument.entities.length = 1 := Option.some.inj bagRead
      rw [entities, List.length_append, two, one]

end Document

end ApiDef
