import ApiDef.Proofs.CommandLine.Folder
import ApiDef.Proofs.Document.Formatting
set_option autoImplicit false

/-!
# Checking formatted files

A file that was formatted passes the check for canonical form. The check makes line endings plain,
which takes as many carriage returns as reading the file does, and it trims both texts.
-/

namespace ApiDef.CommandLine

variable {patternFault? : String → Option String} {options : Options} {indent : Option Nat} {text : String} {document : Document}

/-- The indentation that a number of spaces stands for; without a number it is a tab. -/
def indentationOf (indent : Option Nat) : Indentation :=
  (indent.map Indentation.spaces).getD .tab

def canonicalNotice : String := "File is in canonical form\n"

theorem format_save_succeeds {path : String}
    (succeeds : (format patternFault? options (some path) false indent text).failure = none) :
    ∃ document, Document.readWith patternFault? options text = .ok document ∧ indent ≠ some 0
      ∧ (format patternFault? options (some path) false indent text).saved
        = some (path, Layout.write (indentationOf indent) document.entities) := by
  rw [format] at succeeds ⊢
  cases read : Document.readWith patternFault? options text with
  | error error =>
    rw [read] at succeeds
    cases succeeds
  | ok document =>
    rw [read] at succeeds
    by_cases zero : indent = some 0
    · simp only [if_pos zero] at succeeds
      cases succeeds
    · refine ⟨document, rfl, zero, ?_⟩
      simp only [if_neg zero]
      rfl

theorem isCanonical_write (read : Document.readWith patternFault? options text = .ok document)
    (indentation : Indentation) :
    ∃ again, Document.readWith patternFault? options (Layout.write indentation document.entities) = .ok again
      ∧ isCanonical (Layout.write indentation again.entities)
        (Layout.write indentation document.entities) = true := by
  obtain ⟨again, readAgain, plain⟩ := Document.write_read_write read indentation
  refine ⟨again, readAgain, ?_⟩
  rw [isCanonical, ← plain, String.ofList_toList]
  exact decide_eq_true rfl

theorem format_check_write (read : Document.readWith patternFault? options text = .ok document)
    (indented : indent ≠ some 0) (output : Option String) :
    format patternFault? options output true indent (Layout.write (indentationOf indent) document.entities)
      = .print canonicalNotice := by
  obtain ⟨again, readAgain, canonical⟩ := isCanonical_write read (indentationOf indent)
  rw [format, readAgain]
  dsimp only
  rw [if_neg indented, if_pos rfl, ← indentationOf, if_pos canonical]
  rfl

namespace Folder

variable {folder after : Folder} {limit : Nat} {colour : Bool} {file path printed : String}

/-- What is left behind by a command that succeeds. -/
theorem run_succeeds {command : Command} (done : folder.run patternFault? limit colour command = (printed, after, none)) :
    ∃ text, folder.readText limit command.file = .ok text
      ∧ (command.respond patternFault? colour text).failure = none
      ∧ ∀ path contents, (command.respond patternFault? colour text).saved = some (path, contents) →
        folder.write path contents.toUTF8 = .ok after := by
  rw [run] at done
  cases found : folder.readText limit command.file with
  | error failure =>
    rw [found] at done
    cases done
  | ok text =>
    rw [found] at done
    refine ⟨text, rfl, ?_⟩
    dsimp only at done
    generalize command.respond patternFault? colour text = response at done ⊢
    obtain ⟨said, saved, failure⟩ := response
    cases saved with
    | none =>
      obtain ⟨-, same⟩ := Prod.mk.inj done
      exact ⟨(Prod.mk.inj same).2, nofun⟩
    | some entry =>
      dsimp only at done
      split at done
      next changed written =>
        obtain ⟨-, same⟩ := Prod.mk.inj done
        obtain ⟨rfl, succeeds⟩ := Prod.mk.inj same
        refine ⟨succeeds, ?_⟩
        rintro path contents ⟨⟩
        exact written
      next => cases done

/-- A file that was formatted passes the check, with the same options and the same indentation. -/
theorem run_format_check
    (done : folder.run patternFault? limit colour (.format file options (some path) false indent)
      = (printed, after, none)) :
    ∃ text document, folder.readText limit file = .ok text
      ∧ Document.readWith patternFault? options text = .ok document
      ∧ after.find path
        = .ok (.file (Layout.write (indentationOf indent) document.entities).toUTF8)
      ∧ (∃ again,
        Document.readWith patternFault? options (Layout.write (indentationOf indent) document.entities) = .ok again
        ∧ Text.trim (Layout.write (indentationOf indent) again.entities)
          = Text.trim (String.ofList (plainLineEndings
            (Layout.write (indentationOf indent) document.entities).toList)))
      ∧ ((Layout.write (indentationOf indent) document.entities).utf8ByteSize ≤ limit →
        ∀ output, after.run patternFault? limit colour (.format path options output true indent)
          = (canonicalNotice, after, none)) := by
  obtain ⟨text, found, succeeds, saves⟩ := run_succeeds done
  obtain ⟨document, read, indented, saved⟩ := format_save_succeeds succeeds
  have written := saves _ _ saved
  obtain ⟨again, readAgain, canonical⟩ := isCanonical_write read (indentationOf indent)
  refine ⟨text, document, found, read, find_of_write written,
    ⟨again, readAgain, of_decide_eq_true canonical⟩, fun fits output => ?_⟩
  have readBack : after.readText limit (Command.format path options output true indent).file
      = .ok (Layout.write (indentationOf indent) document.entities) :=
    readText_of_write written fits
  rw [run, readBack]
  simp only [Command.respond, format_check_write read indented]
  rfl

/-- A folder with one file, in which a comment ends with a carriage return. -/
def commentedFolder : Folder :=
  ⟨[(["a"], .file Layout.returnedComment.toUTF8)]⟩

/-- The file is formatted in its place. -/
theorem run_format_check_commentedFolder :
    ∃ after, commentedFolder.run (fun _ => none) 100 false (.format "a" .permissive (some "a") false none)
        = ("", after, none)
      ∧ after.run (fun _ => none) 100 false (.format "a" .permissive none true none)
        = (canonicalNotice, after, none) := by
  have alone : parts "a" = ["a"] := by
    rw [parts, String.splitOn, if_neg (by decide), String.splitOnAux, if_neg (by decide),
      if_neg (by decide), String.splitOnAux, if_pos (by decide)]
    decide
  have found : commentedFolder.readText 100 "a" = .ok Layout.returnedComment := by
    have file : commentedFolder.find "a" = .ok (.file Layout.returnedComment.toUTF8) := by
      rw [find, alone]
      rfl
    have small : ¬100 < (Node.file Layout.returnedComment.toUTF8).size := by decide +kernel
    rw [readText, file]
    simp only [Except.mapError, bind, Except.bind, if_neg small, text_toUTF8]
  have answer : format (fun _ => none) .permissive (some "a") false none Layout.returnedComment
      = ⟨"", some ("a", "#a\r\n\nA \x7b\x7d"), none⟩ := by
    decide +kernel
  have written : commentedFolder.write "a" "#a\r\n\nA \x7b\x7d".toUTF8
      = .ok (commentedFolder.put ["a"] (.file "#a\r\n\nA \x7b\x7d".toUTF8)) := by
    rw [write, splitName, alone]
    rfl
  have done : commentedFolder.run (fun _ => none) 100 false (.format "a" .permissive (some "a") false none)
      = ("", commentedFolder.put ["a"] (.file "#a\r\n\nA \x7b\x7d".toUTF8), none) := by
    rw [run, Command.file, found]
    simp only [Command.respond, answer, written]
  obtain ⟨text, document, sameText, read, -, -, passes⟩ := run_format_check done
  obtain rfl := Except.ok.inj (found.symm.trans sameText)
  have short : (Document.readWith (fun _ => none) .permissive Layout.returnedComment).toOption.all (fun document =>
      (Layout.write (indentationOf none) document.entities).utf8ByteSize ≤ 100) = true := by
    decide +kernel
  rw [read, Except.toOption, Option.all_some, decide_eq_true_eq] at short
  exact ⟨_, done, passes short none⟩

end Folder

end ApiDef.CommandLine
