import ApiDef.Reader.Basic
set_option autoImplicit false

/-!
# The order of places

Places are compared by line and then by column. Going over a text leads to a later place, so nothing
behind a cursor starts before it.
-/

namespace ApiDef

namespace Text.Position

variable {first second third : Position}

theorem before_iff : first.before second = true
    ↔ first.line < second.line ∨ first.line = second.line ∧ first.column < second.column := by
  simp [before]

theorem not_before_iff : first.before second = false
    ↔ second.line < first.line ∨ first.line = second.line ∧ second.column ≤ first.column := by
  rw [← Bool.not_eq_true, before_iff]
  omega

theorem before_self (place : Position) : place.before place = false :=
  not_before_iff.mpr (.inr ⟨rfl, Nat.le_refl _⟩)

theorem before_of_before_of_not_before (here : first.before second = true)
    (there : third.before second = false) : first.before third = true := by
  rw [before_iff] at here ⊢
  rw [not_before_iff] at there
  omega

theorem not_before_trans (here : second.before first = false) (there : third.before second = false) :
    third.before first = false := by
  rw [not_before_iff] at here there ⊢
  omega

theorem not_before_of_before (here : first.before second = true) : second.before first = false := by
  rw [before_iff] at here
  rw [not_before_iff]
  omega

theorem before_advance (place : Position) (c : Char) : place.before (place.advance c) = true := by
  rw [before_iff, advance]
  split
  · exact .inl (Nat.lt_succ_self _)
  · exact .inr ⟨rfl, Nat.lt_succ_self _⟩

theorem not_before_advanceOver (place : Position) (passed : List Char) :
    (place.advanceOver passed).before place = false := by
  induction passed generalizing place with
  | nil => exact before_self place
  | cons c cs ih => exact not_before_trans (not_before_of_before (before_advance place c)) (ih _)

theorem before_advanceOver (place : Position) {passed : List Char} (nonempty : passed ≠ []) :
    place.before (place.advanceOver passed) = true := by
  cases passed with
  | nil => exact absurd rfl nonempty
  | cons c cs =>
    exact before_of_before_of_not_before (before_advance place c) (not_before_advanceOver _ cs)

end Text.Position

namespace Cursor

open Text

variable {first second : Cursor}

theorem Reaches.not_before (reaches : first.Reaches second) :
    second.place.before first.place = false := by
  obtain ⟨passed, -, place⟩ := reaches
  rw [place]
  exact Position.not_before_advanceOver _ _

theorem Reaches.before (reaches : first.Reaches second)
    (shorter : second.rest.length < first.rest.length) :
    first.place.before second.place = true := by
  obtain ⟨passed, rest, place⟩ := reaches
  rw [place]
  apply Position.before_advanceOver
  rintro rfl
  rw [rest] at shorter
  exact Nat.lt_irrefl _ shorter

end Cursor

namespace Text.Span

variable {span : Span} {place : Position}

theorem contains_of_within (after : place.before span.start = false)
    (within : place.before span.stop = true) : span.contains place = true := by
  have nonempty : span.start ≠ span.stop := by
    intro same
    rw [same, within] at after
    cases after
  rw [contains, if_neg nonempty, after, within]
  rfl

theorem not_contains_of_before (earlier : place.before span.start = true) :
    span.contains place = false := by
  rw [contains]
  split
  · refine decide_eq_false fun same => ?_
    rw [same, Position.before_self] at earlier
    cases earlier
  · rw [earlier]
    rfl

theorem not_contains_of_behind (nonempty : span.start.before span.stop = true)
    (behind : place.before span.stop = false) : span.contains place = false := by
  have different : span.start ≠ span.stop := by
    intro same
    rw [same, Position.before_self] at nonempty
    cases nonempty
  rw [contains, if_neg different, behind, Bool.and_false]

end Text.Span

end ApiDef
