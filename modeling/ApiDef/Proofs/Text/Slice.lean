import ApiDef.Proofs.Text.Places
set_option autoImplicit false

/-!
# Slices

The slice of a span is the part of a text whose characters stand at places in the span. The span from
one cursor to a later one cuts out what was passed between them.
-/

namespace ApiDef

namespace Text

/-- The characters of a text, each with its place, if the text starts at a given place. -/
def withPlaces : Position → List Char → List (Position × Char)
  | _, [] => []
  | place, c :: cs => (place, c) :: withPlaces (place.advance c) cs

theorem withPlaces_append (place : Position) (first second : List Char) :
    withPlaces place (first ++ second) = withPlaces place first ++ withPlaces (place.advanceOver first) second := by
  induction first generalizing place with
  | nil => rfl
  | cons c cs ih => rw [List.cons_append, withPlaces, ih, withPlaces, List.cons_append, Position.advanceOver_cons]

theorem map_snd_withPlaces (place : Position) (cs : List Char) :
    (withPlaces place cs).map Prod.snd = cs := by
  induction cs generalizing place with
  | nil => rfl
  | cons c cs ih => rw [withPlaces, List.map_cons, ih]

theorem between_of_mem_withPlaces {place : Position} {cs : List Char} {entry : Position × Char}
    (member : entry ∈ withPlaces place cs) :
    entry.1.before place = false ∧ entry.1.before (place.advanceOver cs) = true := by
  induction cs generalizing place with
  | nil => exact absurd member List.not_mem_nil
  | cons c cs ih =>
    rw [Position.advanceOver_cons]
    rcases List.mem_cons.mp member with rfl | later
    · constructor
      · exact Position.before_self place
      · exact Position.before_advanceOver place (List.cons_ne_nil c cs)
    · obtain ⟨after, within⟩ := ih later
      constructor
      · exact Position.not_before_trans (Position.not_before_of_before (Position.before_advance place c))
          after
      · exact within

namespace Span

/-- The part of a text whose characters stand in a span. -/
def slice (span : Span) (text : String) : String :=
  String.ofList (((withPlaces .origin text.toList).filter fun entry => span.contains entry.1).map Prod.snd)

/-- The second span starts later than the first one, at its end or behind it. -/
def Precedes (first second : Span) : Prop :=
  first.start.before second.start = true ∧ second.start.before first.stop = false

/-- The first span neither starts before the second one nor ends behind it. -/
def LiesWithin (inner outer : Span) : Prop :=
  inner.start.before outer.start = false ∧ outer.stop.before inner.stop = false

theorem filter_withPlaces_outside {span : Span} {place : Position} {cs : List Char}
    (outside : ∀ entry ∈ withPlaces place cs, span.contains entry.1 = false) :
    (withPlaces place cs).filter (fun entry => span.contains entry.1) = [] := by
  apply List.filter_eq_nil_iff.mpr
  intro entry member inside
  rw [outside entry member] at inside
  cases inside

/-- What stands between two places is the slice of the span from one to the other. -/
theorem slice_of_append {text : String} {earlier passed later : List Char}
    (whole : text.toList = earlier ++ (passed ++ later)) (nonempty : passed ≠ []) :
    slice ⟨Position.origin.advanceOver earlier, Position.origin.advanceOver (earlier ++ passed)⟩ text
      = String.ofList passed := by
  generalize from_ : Position.origin.advanceOver earlier = start
  generalize to_ : Position.origin.advanceOver (earlier ++ passed) = stop
  have stopSame : stop = start.advanceOver passed := by
    rw [← to_, ← from_, Position.advanceOver_append]
  have goesOn : start.before stop = true := by
    rw [stopSame]
    exact Position.before_advanceOver start nonempty
  have before : (withPlaces .origin earlier).filter (fun entry => contains ⟨start, stop⟩ entry.1) = [] := by
    apply filter_withPlaces_outside
    intro entry member
    obtain ⟨-, within⟩ := between_of_mem_withPlaces member
    rw [from_] at within
    exact not_contains_of_before within
  have inside : (withPlaces start passed).filter (fun entry => contains ⟨start, stop⟩ entry.1)
      = withPlaces start passed := by
    apply List.filter_eq_self.mpr
    intro entry member
    obtain ⟨after, within⟩ := between_of_mem_withPlaces member
    rw [← stopSame] at within
    exact contains_of_within after within
  have behind : (withPlaces stop later).filter (fun entry => contains ⟨start, stop⟩ entry.1) = [] := by
    apply filter_withPlaces_outside
    intro entry member
    obtain ⟨after, -⟩ := between_of_mem_withPlaces member
    exact not_contains_of_behind goesOn after
  rw [slice, whole, withPlaces_append, withPlaces_append, from_, ← stopSame, List.filter_append,
    List.filter_append, before, inside, behind, List.nil_append, List.append_nil, map_snd_withPlaces]

end Span

end Text

open Text

/-- The slice of the span between two cursors is what was passed between them. -/
theorem Cursor.slice_between {text : String} {first last : Cursor} {passed : List Char}
    (reached : (Cursor.start text).Reaches first) (onward : first.Reaches last)
    (rest : first.rest = passed ++ last.rest) (nonempty : passed ≠ []) :
    Span.slice ⟨first.place, last.place⟩ text = String.ofList passed := by
  obtain ⟨earlier, whole, firstPlace⟩ := reached
  obtain ⟨other, same, lastPlace⟩ := onward
  obtain rfl : other = passed := List.append_cancel_right (same.symm.trans rest)
  change text.toList = earlier ++ first.rest at whole
  change first.place = Position.origin.advanceOver earlier at firstPlace
  rw [rest] at whole
  rw [lastPlace, firstPlace, ← Position.advanceOver_append]
  exact Span.slice_of_append whole nonempty

end ApiDef
