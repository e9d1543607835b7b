import ApiDef.Proofs.Text.Scanning
import Mathlib.Data.List.DropRight
set_option autoImplicit false

/-!
# Lines that describe

What the lines above a piece of code say about it, told from the lines of the whole text: a line counts
if it holds nothing but blanks and a comment with two slashes, and the lines that count end right above
the code.
-/

namespace ApiDef.Text

/-- What a line says if it holds only blanks and a comment with two slashes: what is behind the slashes
without one trailing carriage return. -/
def slashedLine? (line : String) : Option String :=
  match trimStart line.toList with
  | '/' :: '/' :: comment => some (String.ofList (dropCarriageReturn comment))
  | _ => none

def isSlashedLine (line : String) : Bool :=
  (slashedLine? line).isSome

/-- What the longest run of such lines at the end says. -/
def describingTexts (above : List String) : List String :=
  (above.rtakeWhile isSlashedLine).filterMap slashedLine?

/-- The description of what starts on one line when the code in front of it ends on another one. Lines
are counted from one, and only the lines between these two count. -/
def gapDescription (lines : List String) (codeLine line : Nat) : Option String :=
  let texts := describingTexts ((lines.take (line - 1)).drop codeLine)
  if texts.isEmpty then none else some (String.intercalate "\n" texts)

theorem describingTexts_concat_some {above : List String} {line text : String}
    (slashed : slashedLine? line = some text) :
    describingTexts (above ++ [line]) = describingTexts above ++ [text] := by
  have counts : isSlashedLine line = true := by
    rw [isSlashedLine, slashed]
    rfl
  rw [describingTexts, List.rtakeWhile_concat_pos _ _ _ counts, List.filterMap_append,
    List.filterMap_cons_some slashed]
  rfl

theorem describingTexts_concat_none {above : List String} {line : String}
    (other : slashedLine? line = none) : describingTexts (above ++ [line]) = [] := by
  have ends : ¬isSlashedLine line = true := by
    rw [isSlashedLine, other]
    exact Bool.false_ne_true
  rw [describingTexts, List.rtakeWhile_concat_neg _ _ _ ends]
  rfl

theorem slashedLine?_blank {line : List Char} (blank : ∀ c ∈ line, isBlank c = true) :
    slashedLine? (String.ofList line) = none := by
  have nothing : trimStart line = [] := List.dropWhile_eq_nil_iff.mpr blank
  rw [slashedLine?, String.toList_ofList, nothing]

theorem slashedLine?_slashed {margin : List Char} (blank : ∀ c ∈ margin, isBlank c = true)
    (comment : List Char) :
    slashedLine? (String.ofList (margin ++ '/' :: '/' :: comment))
      = some (String.ofList (dropCarriageReturn comment)) := by
  have start : trimStart (margin ++ '/' :: '/' :: comment) = '/' :: '/' :: comment :=
    dropWhile_of_stops blank (stops_cons (by decide) _)
  rw [slashedLine?, String.toList_ofList, start]
  rfl

theorem slashedLine?_hashed {margin : List Char} (blank : ∀ c ∈ margin, isBlank c = true)
    (comment : List Char) : slashedLine? (String.ofList (margin ++ '#' :: comment)) = none := by
  have start : trimStart (margin ++ '#' :: comment) = '#' :: comment :=
    dropWhile_of_stops blank (stops_cons (by decide) _)
  rw [slashedLine?, String.toList_ofList, start]
  rfl

end ApiDef.Text
