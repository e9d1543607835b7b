import ApiDef.Json.Decode
import Mathlib.Data.List.Forall2
set_option autoImplicit false

/-!
# When decoding succeeds

Decoding fails at the first part that fails, so it succeeds exactly when all parts do. An object gives
the pairs of its members, in their order and with every repetition of a key.
-/

namespace ApiDef.Json.Draft

variable {α β : Type}

/-- The pairs that the members of an object give, in the order of the members. -/
def Gives (decode : Draft → Decoded α) (draft : Draft) (pairs : List (String × α)) : Prop :=
  ∃ members, draft = object members true
    ∧ List.Forall₂ (fun member pair => member.1 = some pair.1 ∧ decode member.2 = .ok pair.2)
        members pairs

theorem bind_eq_ok_iff {first : Decoded α} {next : α → Decoded β} {result : β} :
    first >>= next = .ok result ↔ ∃ value, first = .ok value ∧ next value = .ok result := by
  constructor
  · intro same
    cases first with
    | error fault => cases same
    | ok value => exact ⟨value, rfl, same⟩
  · rintro ⟨value, rfl, same⟩
    exact same

theorem map_eq_ok_iff {change : α → β} {first : Decoded α} {result : β} :
    change <$> first = .ok result ↔ ∃ value, first = .ok value ∧ change value = result := by
  rw [← bind_pure_comp, bind_eq_ok_iff]
  constructor
  · rintro ⟨value, found, same⟩
    exact ⟨value, found, Except.ok.inj same⟩
  · rintro ⟨value, found, same⟩
    exact ⟨value, found, congrArg Except.ok same⟩

/-- Items are decoded one after the other. -/
theorem mapM_eq_ok_iff {ι : Type} {decode : ι → Decoded α} {items : List ι} {values : List α} :
    items.mapM decode = .ok values
      ↔ List.Forall₂ (fun item value => decode item = .ok value) items values := by
  induction items generalizing values with
  | nil =>
    rw [List.forall₂_nil_left_iff]
    constructor
    · intro same
      exact (Except.ok.inj same).symm
    · rintro rfl
      rfl
  | cons item others ih =>
    rw [List.mapM_cons, bind_eq_ok_iff, List.forall₂_cons_left_iff]
    constructor
    · rintro ⟨value, first, rest⟩
      obtain ⟨later, decoded, same⟩ := bind_eq_ok_iff.mp rest
      exact ⟨value, later, first, ih.mp decoded, (Except.ok.inj same).symm⟩
    · rintro ⟨value, later, first, rest, rfl⟩
      exact ⟨value, first, bind_eq_ok_iff.mpr ⟨later, ih.mpr rest, rfl⟩⟩

theorem ifClosed_eq_ok_iff {closed : Bool} {value result : α} :
    ifClosed closed value = .ok result ↔ closed = true ∧ value = result := by
  cases closed with
  | false => simp [ifClosed]
  | true => simp [ifClosed]

theorem keyText_eq_ok_iff {key : Option String} {text : String} :
    keyText key = .ok text ↔ key = some text := by
  cases key with
  | none => simp [keyText]
  | some text => simp [keyText]

theorem membersOf_eq_ok_iff {decode : Draft → Decoded α} {draft : Draft} {pairs : List (String × α)} :
    membersOf decode draft = .ok pairs ↔ draft.Gives decode pairs := by
  cases draft with
  | object members closed =>
    have pair (member : Option String × Draft) (pair : String × α) :
        (do return (← keyText member.1, ← decode member.2) : Decoded (String × α)) = .ok pair
          ↔ member.1 = some pair.1 ∧ decode member.2 = .ok pair.2 := by
      simp only [bind_eq_ok_iff, keyText_eq_ok_iff]
      constructor
      · rintro ⟨key, isKey, value, isValue, same⟩
        obtain rfl := Except.ok.inj same
        exact ⟨isKey, isValue⟩
      · rintro ⟨isKey, isValue⟩
        exact ⟨pair.1, isKey, pair.2, isValue, rfl⟩
    rw [membersOf, bind_eq_ok_iff]
    simp only [mapM_eq_ok_iff, ifClosed_eq_ok_iff, pair]
    constructor
    · rintro ⟨values, given, rfl, rfl⟩
      exact ⟨members, rfl, given⟩
    · rintro ⟨_, same, given⟩
      obtain ⟨rfl, rfl⟩ := object.inj same
      exact ⟨pairs, given, rfl, rfl⟩
  | null | bool | number | string | array | broken =>
    constructor
    · rintro ⟨⟩
    · rintro ⟨_, ⟨⟩, _⟩

theorem read_eq_ok_iff {decode : Nat → Draft → Decoded α} {text : String} {value : α} :
    Json.read decode text = .ok value
      ↔ ∃ draft, ofText text = (draft, true) ∧ decode levelLimit draft = .ok value := by
  rw [Json.read]
  cases read : ofText text with
  | mk draft complete =>
    simp only [bind_eq_ok_iff, ifClosed_eq_ok_iff, Prod.mk.injEq]
    constructor
    · rintro ⟨value, decoded, rfl, rfl⟩
      exact ⟨draft, ⟨rfl, rfl⟩, decoded⟩
    · rintro ⟨draft, ⟨rfl, rfl⟩, decoded⟩
      exact ⟨value, decoded, rfl, rfl⟩

end ApiDef.Json.Draft
