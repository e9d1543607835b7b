import Mathlib.Data.List.Basic
import ApiDef.Proofs.Document.RoundTrip
import ApiDef.Proofs.Layout.PlainLines
set_option autoImplicit false

/-!
# Formatting

Formatting a formatted text makes its line endings plain and changes nothing else. So a formatted text
stays as it is exactly if no line that another one follows ends with a carriage return.
-/

namespace ApiDef

open CommandLine

namespace Document

variable {patternFault? : String → Option String} {options : Options} {text : String}

theorem write_read_write {document : Document}
    (read : readWith patternFault? options text = .ok document) (indentation : Indentation) :
    ∃ again, readWith patternFault? options (Layout.write indentation document.entities) = .ok again
      ∧ (Layout.write indentation again.entities).toList
        = plainLineEndings (Layout.write indentation document.entities).toList := by
  obtain ⟨again, readAgain, -, -, same⟩ := read_write_of_read read indentation
  obtain ⟨wellFormed, -⟩ := content_of_read read
  exact ⟨again, readAgain, by rw [same, Layout.plainLineEndings_write wellFormed]⟩

end Document

namespace Layout

variable {patternFault? : String → Option String} {options : Options} {text formatted : String}

theorem format_eq_ok_iff : format patternFault? options text = .ok formatted
    ↔ ∃ document, Document.readWith patternFault? options text = .ok document
      ∧ formatted = write .tab document.entities := by
  rw [format]
  cases Document.readWith patternFault? options text with
  | error error => simp [Except.map]
  | ok document => simp [Except.map, eq_comm]

/-- Formatting again leaves nothing to format but the line endings. -/
theorem format_format (done : format patternFault? options text = .ok formatted) :
    format patternFault? options formatted = .ok (String.ofList (plainLineEndings formatted.toList))
      ∧ (format patternFault? options formatted = .ok formatted ↔ ¬['\r', '\n'] <:+: formatted.toList) := by
  obtain ⟨document, read, rfl⟩ := format_eq_ok_iff.mp done
  obtain ⟨again, readAgain, plain⟩ := Document.write_read_write read .tab
  have formatAgain : format patternFault? options (write .tab document.entities)
      = .ok (String.ofList (plainLineEndings (write .tab document.entities).toList)) :=
    format_eq_ok_iff.mpr ⟨again, readAgain, by rw [← plain, String.ofList_toList]⟩
  refine ⟨formatAgain, ?_⟩
  rw [formatAgain, ← plainLineEndings_eq_self_iff, Except.ok.injEq, ← String.toList_inj,
    String.toList_ofList]

/-- The first comment ends with a carriage return that belongs to its text. -/
def returnedComment : String := "#a\r\r\n\nA \x7b\x7d"

theorem format_format_returnedComment :
    ∃ formatted, format (fun _ => none) .permissive returnedComment = .ok formatted
      ∧ format (fun _ => none) .permissive formatted = .ok (String.ofList (plainLineEndings formatted.toList))
      ∧ (format (fun _ => none) .permissive formatted = .ok formatted ↔ ¬['\r', '\n'] <:+: formatted.toList) := by
  have done : format (fun _ => none) .permissive returnedComment = .ok "#a\r\n\nA \x7b\x7d" := by
    decide +kernel
  exact ⟨_, done, format_format done⟩

theorem exists_format_ne_formatted :
    ∃ formatted, format (fun _ => none) .permissive returnedComment = .ok formatted
      ∧ format (fun _ => none) .permissive formatted ≠ .ok formatted := by
  refine ⟨"#a\r\n\nA \x7b\x7d", by decide +kernel, ?_⟩
  have again : format (fun _ => none) .permissive "#a\r\n\nA \x7b\x7d" = .ok "#a\n\nA \x7b\x7d" := by
    decide +kernel
  rw [again]
  decide

end Layout

end ApiDef
