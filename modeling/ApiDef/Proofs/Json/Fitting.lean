import ApiDef.Json.Decode
import ApiDef.Proofs.Json.Written
set_option autoImplicit false

/-!
# Decoding within the levels

What is decoded from the draft of a value depends on one thing besides the value: whether its arrays
and objects stand inside one another no more often than levels may be opened. For each way of
decoding there is a rule that says how many levels it needs.
-/

namespace ApiDef.Json

/-!
## Depth
-/

mutual

/-- How many arrays and objects stand inside one another. -/
def depth : Json → Nat
  | array elements => depthOfElements elements + 1
  | object members => depthOfMembers members + 1
  | _ => 0

def depthOfElements : List Json → Nat
  | [] => 0
  | element :: others => max (depth element) (depthOfElements others)

def depthOfMembers : List (String × Json) → Nat
  | [] => 0
  | (_, value) :: others => max (depth value) (depthOfMembers others)

end

theorem depthOfMembers_append (left right : List (String × Json)) :
    depthOfMembers (left ++ right) = max (depthOfMembers left) (depthOfMembers right) := by
  induction left with
  | nil => rw [List.nil_append, depthOfMembers, Nat.zero_max]
  | cons member others ih => rw [List.cons_append, depthOfMembers, depthOfMembers, ih, Nat.max_assoc]

theorem depthOfElements_le_iff {elements : List Json} {levels : Nat} :
    depthOfElements elements ≤ levels ↔ ∀ element ∈ elements, element.depth ≤ levels := by
  induction elements with
  | nil => simp [depthOfElements]
  | cons element others ih => simp only [depthOfElements, Nat.max_le, ih, List.forall_mem_cons]

theorem depthOfMembers_le_iff {members : List (String × Json)} {levels : Nat} :
    depthOfMembers members ≤ levels ↔ ∀ member ∈ members, member.2.depth ≤ levels := by
  induction members with
  | nil => simp [depthOfMembers]
  | cons member others ih => simp only [depthOfMembers, Nat.max_le, ih, List.forall_mem_cons]

/-- A value that needs some levels, where so many may be opened. -/
def fitting {α : Type} (needed levels : Nat) (value : α) : Decoded α :=
  if needed ≤ levels then .ok value else .error .malformed

section

variable {α β : Type} {needed further levels : Nat} {value : α}

theorem fitting_succ_succ :
    fitting (needed + 1) (levels + 1) value = fitting needed levels value := by
  simp only [fitting, Nat.add_le_add_iff_right]

theorem map_fitting (change : α → β) :
    change <$> fitting needed levels value = fitting needed levels (change value) := by
  unfold fitting
  split <;> rfl

/-- Two steps need as many levels as the one that needs more. -/
theorem fitting_bind {next : α → Decoded β} {result : β}
    (continued : next value = fitting further levels result) :
    fitting needed levels value >>= next = fitting (max needed further) levels result := by
  by_cases enough : needed ≤ levels
  · simp only [fitting, enough, if_true, Nat.max_le, true_and]
    exact continued
  · simp only [fitting, enough, if_false, Nat.max_le, false_and]
    rfl

/-- A second step that needs no levels of its own. -/
theorem fitting_bind_ok {next : α → Decoded β} {result : β}
    (continued : needed ≤ levels → next value = .ok result) :
    fitting needed levels value >>= next = fitting needed levels result := by
  unfold fitting
  split
  next enough => exact continued enough
  next => rfl

theorem fitting_eq_ok_iff : fitting needed levels value = .ok value ↔ needed ≤ levels := by
  unfold fitting
  split
  next enough => simp [enough]
  next tooDeep => simp [tooDeep]

end

namespace Draft

variable {α β : Type}

/-!
## Keeping a value whole
-/

/-- A value that can be kept whenever there are levels enough for it. -/
def Kept (json : Json) : Prop :=
  ∀ levels, (ofJson json).isTidy levels = decide (json.depth ≤ levels)

namespace Kept

theorem string (text : String) : Kept (.string text) := by
  intro levels
  cases levels <;> rfl

theorem bool (value : Bool) : Kept (.bool value) := by
  intro levels
  cases levels <;> rfl

theorem array {elements : List Json} (kept : ∀ element ∈ elements, Kept element) :
    Kept (.array elements) := by
  have all : ∀ levels, (ofElements elements).all (isTidy levels)
      = decide (depthOfElements elements ≤ levels) := by
    intro levels
    induction elements with
    | nil => rfl
    | cons element others ih =>
      obtain ⟨first, rest⟩ := List.forall_mem_cons.mp kept
      rw [ofElements, List.all_cons, first levels, ih rest, depthOfElements, ← Bool.decide_and]
      simp only [Nat.max_le]
  intro levels
  cases levels with
  | zero => rfl
  | succ levels =>
    rw [ofJson, isTidy, all, Bool.and_true, depth]
    simp only [Nat.add_le_add_iff_right]

theorem members {members : List (String × Json)} (kept : ∀ member ∈ members, Kept member.2)
    (levels : Nat) :
    (ofMembers members).all (fun (key, value) => key.isSome && isTidy levels value)
      = decide (depthOfMembers members ≤ levels) := by
  induction members with
  | nil => rfl
  | cons member others ih =>
    obtain ⟨first, rest⟩ := List.forall_mem_cons.mp kept
    rw [ofMembers, List.all_cons, ih rest, depthOfMembers]
    simp only [first levels, Option.isSome_some, Bool.true_and, ← Bool.decide_and, Nat.max_le]

theorem object {members : List (String × Json)} (kept : ∀ member ∈ members, Kept member.2) :
    Kept (.object members) := by
  intro levels
  cases levels with
  | zero => rfl
  | succ levels =>
    rw [ofJson, isTidy, Kept.members kept, Bool.and_true, depth]
    simp only [Nat.add_le_add_iff_right]

end Kept

/-!
## Decoding lists and members
-/

/-- A value comes back from its JSON form whenever there are levels enough for it. -/
def Decodes (decode : Nat → Draft → Decoded α) (json : Json) (value : α) : Prop :=
  ∀ levels, decode levels (ofJson json) = fitting json.depth levels value

/-- Decoding that opens one level before it looks inside. -/
theorem Decodes.of_opened {decode : Nat → Draft → Decoded α} {json : Json} {value : α} {needed : Nat}
    (opens : json.depth = needed + 1) (closed : decode 0 (ofJson json) = .error .malformed)
    (opened : ∀ levels, decode (levels + 1) (ofJson json) = fitting needed levels value) :
    Decodes decode json value := by
  intro levels
  rw [opens]
  cases levels with
  | zero => exact closed
  | succ levels => rw [opened, fitting_succ_succ]

theorem asOptional_ofJson {decode : Draft → Decoded α} {json : Json} (present : json ≠ .null) :
    asOptional decode (ofJson json) = some <$> decode (ofJson json) := by
  cases json with
  | null => exact absurd rfl present
  | bool | number | string | array | object => rfl

theorem mapM_ofElements {decode : Draft → Decoded α} {encode : α → Json} {levels : Nat}
    {values : List α}
    (decodes : ∀ value ∈ values,
      decode (ofJson (encode value)) = fitting (encode value).depth levels value) :
    (ofElements (values.map encode)).mapM decode
      = fitting (depthOfElements (values.map encode)) levels values := by
  induction values with
  | nil => rfl
  | cons value others ih =>
    obtain ⟨first, rest⟩ := List.forall_mem_cons.mp decodes
    rw [List.map_cons, ofElements, List.mapM_cons, first, ih rest, depthOfElements]
    exact fitting_bind (map_fitting (value :: ·))

theorem Decodes.list {decode : Nat → Draft → Decoded α} {encode : α → Json} {values : List α}
    (decodes : ∀ value ∈ values, Decodes decode (encode value) value) :
    Decodes (asList decode) (.array (values.map encode)) values := by
  refine .of_opened rfl rfl fun levels => ?_
  have elements := mapM_ofElements fun value member => decodes value member levels
  rw [← elements]
  exact bind_pure (ofElements _ |>.mapM (decode levels))

theorem membersOf_ofJson {decode : Draft → Decoded α} {encode : α → Json} {levels : Nat}
    {entries : List (String × α)}
    (decodes : ∀ entry ∈ entries,
      decode (ofJson (encode entry.2)) = fitting (encode entry.2).depth levels entry.2) :
    membersOf decode (ofJson (.object (entries.map fun (key, value) => (key, encode value))))
      = fitting (depthOfMembers (entries.map fun (key, value) => (key, encode value))) levels
          entries := by
  have pairs : (ofMembers (entries.map fun (key, value) => (key, encode value))).mapM
        (fun (key, value) => do return (← keyText key, ← decode value))
      = fitting (depthOfMembers (entries.map fun (key, value) => (key, encode value))) levels
          entries := by
    induction entries with
    | nil => rfl
    | cons entry others ih =>
      obtain ⟨first, rest⟩ := List.forall_mem_cons.mp decodes
      have pair : (do return (entry.1, ← decode (ofJson (encode entry.2))) : Decoded _)
          = fitting (encode entry.2).depth levels entry := by
        rw [first]
        exact map_fitting (entry.1, ·)
      rw [List.map_cons, ofMembers, List.mapM_cons, ih rest, depthOfMembers]
      simp only [keyText]
      refine (congrArg (· >>= _) pair).trans ?_
      exact fitting_bind (map_fitting (entry :: ·))
  rw [ofJson, membersOf, pairs]
  exact bind_pure (m := Decoded) _

theorem Decodes.members {decode : Nat → Draft → Decoded α} {encode : α → Json}
    {entries : List (String × α)}
    (decodes : ∀ entry ∈ entries, Decodes decode (encode entry.2) entry.2) :
    Decodes (asMembers decode)
      (.object (entries.map fun (key, value) => (key, encode value))) entries := by
  refine .of_opened rfl rfl fun levels => ?_
  exact membersOf_ofJson fun entry member => decodes entry member levels

/-!
## Decoding records
-/

theorem ofMembers_eq_map (members : List (String × Json)) :
    ofMembers members = members.map fun member => (some member.1, ofJson member.2) := by
  induction members with
  | nil => rfl
  | cons member others ih => exact congrArg _ ih

theorem ofMembers_append (left right : List (String × Json)) :
    ofMembers (left ++ right) = ofMembers left ++ ofMembers right := by
  simp only [ofMembers_eq_map, List.map_append]

/-- Taking in members, one after the other, leads from some parts to others whenever there are
levels enough for their values. -/
def Collects (take : α → String → Draft → Decoded α) (levels : Nat) (parts : α)
    (members : List (String × Json)) (collected : α) : Prop :=
  (ofMembers members).foldlM (fun parts (key, value) => do take parts (← keyText key) value) parts
    = fitting (depthOfMembers members) levels collected

namespace Collects

variable {take : α → String → Draft → Decoded α} {levels : Nat} {parts between collected : α}
  {members further : List (String × Json)} {key : String}

theorem nil : Collects take levels parts [] parts := rfl

theorem single {json : Json}
    (taken : take parts key (ofJson json) = fitting json.depth levels collected) :
    Collects take levels parts [(key, json)] collected := by
  have one : depthOfMembers [(key, json)] = json.depth := Nat.max_zero _
  rw [Collects, one, ← taken]
  exact bind_pure (take parts key (ofJson json))

theorem append (first : Collects take levels parts members between)
    (rest : Collects take levels between further collected) :
    Collects take levels parts (members ++ further) collected := by
  rw [Collects, ofMembers_append, List.foldlM_append, first, depthOfMembers_append]
  exact fitting_bind rest

end Collects

theorem recordOf_ofJson {fields : List String} {take : α → String → Draft → Decoded α} {levels : Nat}
    {empty collected : α} {members : List (String × Json)} {finish : Given → α → Decoded β} {value : β}
    (collects : Collects take levels empty members collected)
    (finished : ∀ given, finish given collected = .ok value) :
    recordOf fields empty take finish (ofJson (.object members))
      = fitting (depthOfMembers members) levels value := by
  refine (congrArg (· >>= finish ⟨ofMembers members, true, .missing⟩) collects).trans ?_
  exact fitting_bind_ok fun _ => finished _

theorem Decodes.record {fields : List String} {take : Nat → α → String → Draft → Decoded α}
    {empty : α} {members : List (String × Json)} {finish : Given → α → Decoded β} {value : β}
    (collects : ∀ levels, ∃ collected, Collects (take levels) levels empty members collected
      ∧ ∀ given, finish given collected = .ok value) :
    Decodes (asRecord fields empty take finish) (.object members) value := by
  refine .of_opened rfl rfl fun levels => ?_
  obtain ⟨collected, folded, finished⟩ := collects levels
  exact recordOf_ofJson folded finished

end Draft

end ApiDef.Json
