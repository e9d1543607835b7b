import Mathlib.Data.List.Basic
import ApiDef.Document
import ApiDef.Proofs.Parser.Document
set_option autoImplicit false

/-!
# Reading first and checking afterwards

A text is checked while it is parsed. The result is the same as if the text were read to its end, or to
its fault, without a look at the options behind the grammar, and the questions that came up were answered
afterwards. What holds of the readers can so be said of documents.
-/

namespace ApiDef.Document

/-- The outcome of reading a text, before its questions are answered. -/
def outcome (grammar : Grammar) (text : String) : Outcome (List Item) :=
  (Reader.document grammar).run (.start text)

/-- The findings about a text, up to a fault if it has one. -/
def findingsAbout (patternFault? : String → Option String) (options : Options)
    (asked : List Question) : List Finding :=
  Question.findingsOfAll patternFault? options (.ofSignatures options.validTypes) asked

/-- Parsing with checks on the way comes to what reading and answering afterwards come to. -/
theorem readWith_eq (patternFault? : String → Option String) (options : Options) (text : String) :
    readWith patternFault? options text
      = match options.softErrors,
          findingsAbout patternFault? options (outcome options.grammar text).asked,
          outcome options.grammar text with
        | false, first :: _, _ => .error (.finding first)
        | _, findings, .done items _ _ => .ok ⟨items, findings⟩
        | _, _, .failed fault _ => .error (.fault fault) := by
  rw [readWith, Parser.follows_document, Outcome.settle_eq]
  simp only [outcome, findingsAbout, Validator.new, List.nil_append]
  generalize Question.findingsOfAll _ _ _ _ = found
  cases (Reader.document options.grammar).run (.start text) with
  | done items after asked => cases options.softErrors <;> cases found <;> rfl
  | failed fault asked => cases options.softErrors <;> cases found <;> rfl

/-- The type is not known, and behind it a brace is missing: strict reading stops at the type, soft
reading at the end of the text. -/
example :
    readWith (fun _ => none) .permissive "A \x7b b: B"
      = .error (.finding ⟨.type (.unknown "B"), ⟨⟨1, 8⟩, ⟨1, 9⟩⟩⟩)
    ∧ readWith (fun _ => none) { Options.permissive with softErrors := true } "A \x7b b: B"
      = .error (.fault ⟨.unexpected [.mark "@", .closeBrace, .comment, .identifier] none,
        ⟨⟨1, 9⟩, ⟨1, 9⟩⟩⟩) := by
  decide +kernel

end ApiDef.Document
