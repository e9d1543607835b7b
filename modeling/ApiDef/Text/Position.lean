set_option autoImplicit false

/-!
# Positions and spans

A position is a line and a column, both counted from one; columns count characters, and only a line
feed ends a line. A span is a half-open range of positions.
-/

namespace ApiDef.Text

/-- A place in a text. -/
structure Position where
  line : Nat
  column : Nat
deriving DecidableEq, Repr, Inhabited

namespace Position

def origin : Position := ⟨1, 1⟩

def advance (position : Position) (c : Char) : Position :=
  if c = '\n' then ⟨position.line + 1, 1⟩ else ⟨position.line, position.column + 1⟩

def advanceOver (position : Position) (passed : List Char) : Position :=
  passed.foldl advance position

def before (left right : Position) : Bool :=
  left.line < right.line || (left.line = right.line && left.column < right.column)

def earlier (left right : Position) : Position :=
  if right.before left then right else left

def later (left right : Position) : Position :=
  if right.before left then left else right

def text (position : Position) : String :=
  s!"line {position.line}, column {position.column}"

@[simp] theorem advanceOver_nil (position : Position) : position.advanceOver [] = position := rfl

@[simp] theorem advanceOver_cons (position : Position) (c : Char) (cs : List Char) :
    position.advanceOver (c :: cs) = (position.advance c).advanceOver cs := rfl

/-- Walking over two runs one after the other is walking over both at once. -/
theorem advanceOver_append (position : Position) (first second : List Char) :
    position.advanceOver (first ++ second) = (position.advanceOver first).advanceOver second := by
  simp [advanceOver]

end Position

/-- A range of positions: `start` belongs to it and `stop` does not. -/
structure Span where
  start : Position
  stop : Position
deriving DecidableEq, Repr, Inhabited

namespace Span

def point (position : Position) : Span := ⟨position, position⟩

def isSingleLine (span : Span) : Bool :=
  span.start.line = span.stop.line

/-- Whether a position lies in a range; an empty range holds its own place. -/
def contains (span : Span) (position : Position) : Bool :=
  if span.start = span.stop then position = span.start
  else !position.before span.start && position.before span.stop

def merge (left right : Span) : Span :=
  ⟨left.start.earlier right.start, left.stop.later right.stop⟩

def text (span : Span) : String :=
  if span.isSingleLine then s!"{span.start.line}:{span.start.column}-{span.stop.column}"
  else s!"{span.start.text}-{span.stop.text}"

end Span

end ApiDef.Text
