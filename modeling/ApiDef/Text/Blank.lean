set_option autoImplicit false

/-!
# Blanks, controls and lines

The character classes that every layer shares, trimming, and the division of a text into lines.
Blanks are Unicode's White_Space property; controls are the two ranges of category Cc.
-/

namespace ApiDef.Text

/-- Inclusive ranges of the code points with the property White_Space, in ascending order. -/
def blankRanges : List (Nat × Nat) :=
  [(0x09, 0x0D), (0x20, 0x20), (0x85, 0x85), (0xA0, 0xA0), (0x1680, 0x1680), (0x2000, 0x200A),
   (0x2028, 0x2029), (0x202F, 0x202F), (0x205F, 0x205F), (0x3000, 0x3000)]

/-- A character with the property White_Space. -/
def isBlank (c : Char) : Bool :=
  blankRanges.any fun (low, high) => low ≤ c.toNat && c.toNat ≤ high

/-- A control character: U+0000 to U+001F or U+007F to U+009F. -/
def isControl (c : Char) : Bool :=
  c.toNat < 0x20 || (0x7F ≤ c.toNat && c.toNat ≤ 0x9F)

/-- A comment starts with `#` or with `//` and ends before the next line feed. -/
def startsComment : List Char → Bool
  | '#' :: _ => true
  | '/' :: '/' :: _ => true
  | _ => false

/-- What is left of a text without its leading blanks. -/
def trimStart (cs : List Char) : List Char :=
  cs.dropWhile isBlank

/-- What is left of a text without its trailing blanks. -/
def trimEnd (cs : List Char) : List Char :=
  (cs.reverse.dropWhile isBlank).reverse

/-- A text without the blanks at either end. -/
def trim (text : String) : String :=
  String.ofList (trimEnd (trimStart text.toList))

/-- The lines of a text, split at every line feed; there is always at least one. -/
def lines (text : String) : List String :=
  (text.toList.splitOn '\n').map String.ofList

/-- A line without one trailing carriage return. -/
def dropCarriageReturn (line : List Char) : List Char :=
  match line.getLast? with
  | some '\r' => line.dropLast
  | _ => line

/-- The part of a text before the first `mark` and the part after it, when it occurs. -/
def cutAt? (mark : Char) : List Char → Option (List Char × List Char)
  | [] => none
  | c :: cs =>
    if c = mark then some ([], cs)
    else (cutAt? mark cs).map fun (before, after) => (c :: before, after)

/-- A text without the characters at its start that are `mark`. -/
def dropLeading (mark : Char) (text : String) : String :=
  String.ofList (text.toList.dropWhile (· = mark))

/-- Comparison of names that ignores the case of ASCII letters. -/
def sameIgnoringCase (left right : String) : Bool :=
  left.toList.map Char.toLower = right.toList.map Char.toLower

end ApiDef.Text
