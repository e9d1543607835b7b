import ApiDef.Proofs.Text.Places
import Mathlib.Data.List.Induction
set_option autoImplicit false

/-!
# Locations

Where a prefix of a text ends, counted from its line feeds: the line is one more than the line feeds in
it, and the column one more than the characters since the last of them. A span is located in a text if
it goes from the end of one prefix to the end of a longer one.
-/

namespace ApiDef

namespace Text

/-- Where a prefix of a text ends. -/
def Position.behind (passed : List Char) : Position :=
  ⟨1 + passed.count '\n', 1 + (passed.reverse.takeWhile (· ≠ '\n')).length⟩

/-- Walking over a prefix from the start of a text leads to where the prefix ends. -/
theorem Position.advanceOver_origin (passed : List Char) :
    Position.origin.advanceOver passed = .behind passed := by
  induction passed using List.reverseRecOn with
  | nil => rfl
  | append_singleton passed c ih =>
    rw [advanceOver_append, ih, advanceOver_cons, advanceOver_nil, behind, advance]
    by_cases lineFeed : c = '\n'
    · simp [lineFeed, behind, Nat.add_assoc]
    · simp [lineFeed, behind, Nat.add_comm]

namespace Span

/-- A span goes from the end of one prefix of a text to the end of a longer one. -/
def LiesIn (text : String) (span : Span) : Prop :=
  ∃ first second, first <+: second ∧ second <+: text.toList
    ∧ span.start = .behind first ∧ span.stop = .behind second

/-- A span is that of the empty rest at the end of a text. -/
def EndsText (text : String) (span : Span) : Prop :=
  span = .point (.behind text.toList)

/-- A span is that of one character of a text. -/
def Covers (text : String) (span : Span) (c : Char) : Prop :=
  ∃ passed others, text.toList = passed ++ c :: others
    ∧ span = ⟨.behind passed, .behind (passed ++ [c])⟩

theorem not_endsText_of_covers {text : String} {span : Span} {c : Char} (covers : span.Covers text c) :
    ¬span.EndsText text := by
  obtain ⟨passed, others, -, rfl⟩ := covers
  intro atEnd
  obtain ⟨start, stop⟩ := Span.mk.inj atEnd
  have later := Position.before_advance (.behind passed) c
  have next : (Position.behind passed).advance c = .behind (passed ++ [c]) := by
    rw [← Position.advanceOver_origin, ← Position.advanceOver_origin, Position.advanceOver_append]
    rfl
  rw [next, start, stop, Position.before_self] at later
  cases later

end Span

end Text

open Text

namespace Cursor

theorem Reaches.eq_behind {text : String} {cursor : Cursor} (reached : (start text).Reaches cursor) :
    ∃ passed, text.toList = passed ++ cursor.rest ∧ cursor.place = .behind passed := by
  obtain ⟨passed, rest, place⟩ := reached
  exact ⟨passed, rest, place.trans (Position.advanceOver_origin passed)⟩

/-- The span lies on the way from one cursor to another. -/
def Encloses (first last : Cursor) (span : Span) : Prop :=
  ∃ left right, first.Reaches left ∧ left.Reaches right ∧ right.Reaches last
    ∧ span = ⟨left.place, right.place⟩

variable {first last earlier later : Cursor} {span : Span}

theorem Encloses.until (encloses : first.Encloses last span) (reaches : last.Reaches later) :
    first.Encloses later span := by
  obtain ⟨left, right, start, between, stop, same⟩ := encloses
  exact ⟨left, right, start, between, stop.trans reaches, same⟩

theorem encloses_between {left : Cursor} (start : first.Reaches left) (stop : left.Reaches last) :
    first.Encloses last ⟨left.place, last.place⟩ :=
  ⟨left, last, start, stop, .refl last, rfl⟩

/-- Two spans one behind the other, together with what stands between them. -/
theorem Encloses.merge {left right : Span} {middle : Cursor} (here : first.Encloses middle left)
    (there : middle.Encloses last right) : first.Encloses last (left.merge right) := by
  obtain ⟨leftStart, leftStop, toStart, inLeft, toMiddle, rfl⟩ := here
  obtain ⟨rightStart, rightStop, toRight, inRight, toLast, rfl⟩ := there
  have starts : leftStart.Reaches rightStart := inLeft.trans (toMiddle.trans toRight)
  have stops : leftStop.Reaches rightStop := toMiddle.trans (toRight.trans inRight)
  refine ⟨leftStart, rightStop, toStart, starts.trans inRight, toLast, ?_⟩
  have later : leftStop.place.later rightStop.place = rightStop.place := by
    rw [Position.later, stops.not_before]
    rfl
  rw [Span.merge, Position.earlier, starts.not_before, later]
  rfl

/-- The span lies somewhere behind a cursor. -/
def Holds (base : Cursor) (span : Span) : Prop :=
  ∃ last, base.Encloses last span

/-- What lies behind the start of a text lies in the text. -/
theorem Holds.liesIn {text : String} (holds : (start text).Holds span) : span.LiesIn text := by
  obtain ⟨last, left, right, toLeft, between, -, rfl⟩ := holds
  obtain ⟨first, whole, leftPlace⟩ := toLeft.eq_behind
  obtain ⟨passed, rest, rightPlace⟩ := between
  refine ⟨first, first ++ passed, List.prefix_append _ _, ?_, leftPlace, ?_⟩
  · rw [whole, rest, ← List.append_assoc]
    exact List.prefix_append _ _
  · rw [rightPlace, leftPlace, ← Position.advanceOver_origin, ← Position.advanceOver_origin,
      Position.advanceOver_append]

theorem nextSpan_of_end {cursor : Cursor} (ended : cursor.rest = []) :
    cursor.nextSpan = .point cursor.place := by
  rw [nextSpan, ended]

theorem nextSpan_of_cons {cursor : Cursor} {c : Char} {others : List Char}
    (rest : cursor.rest = c :: others) :
    cursor.nextSpan = ⟨cursor.place, (cursor.pass [c] others).place⟩ := by
  rw [nextSpan, rest]
  rfl

theorem holds_nextSpan {base cursor : Cursor} (reached : base.Reaches cursor) :
    base.Holds cursor.nextSpan := by
  cases rest : cursor.rest with
  | nil =>
    rw [nextSpan_of_end rest]
    exact ⟨cursor, encloses_between reached (.refl cursor)⟩
  | cons c others =>
    rw [nextSpan_of_cons rest]
    exact ⟨_, encloses_between reached (reaches_pass rest.symm)⟩

/-- At the end of a text there is no next character. -/
theorem endsText_nextSpan {text : String} {cursor : Cursor} (reached : (start text).Reaches cursor)
    (ended : cursor.rest.head? = none) : cursor.nextSpan.EndsText text := by
  have rest := List.head?_eq_none_iff.mp ended
  obtain ⟨passed, whole, place⟩ := reached.eq_behind
  rw [rest, List.append_nil] at whole
  rw [Span.EndsText, nextSpan_of_end rest, place, whole]

theorem covers_nextSpan {text : String} {cursor : Cursor} {c : Char}
    (reached : (start text).Reaches cursor) (next : cursor.rest.head? = some c) :
    cursor.nextSpan.Covers text c := by
  obtain ⟨others, rest⟩ := List.head?_eq_some_iff.mp next
  obtain ⟨passed, whole, place⟩ := reached.eq_behind
  refine ⟨passed, others, by rw [whole, rest], ?_⟩
  rw [nextSpan_of_cons rest, place, pass, place, ← Position.advanceOver_origin,
    ← Position.advanceOver_origin, Position.advanceOver_append]

end Cursor

end ApiDef
