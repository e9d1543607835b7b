import ApiDef.Proofs.Json.Accepted
import ApiDef.Proofs.Schema.Decoding
import ApiDef.Schema.Conversion
set_option autoImplicit false

/-!
# What bags keep

However pairs come into a bag, each of its keys stands where it came first and has the value that
came last. Bags are filled by single insertions, from lists, from JSON objects whose keys may be
repeated, and from the properties and parameters of declarations, whose names may be; all of them are
one run of insertions.
-/

namespace ApiDef

open Json Json.Draft

namespace Bag

variable {α : Type} {bag : Bag α} {earlier pairs : List (String × α)}

/-!
## Insertion
-/

/-- What a bag holds after pairs were put into it: each key where it came first, with the value that
came last. -/
structure Keeps (bag : Bag α) (pairs : List (String × α)) : Prop where
  distinct : bag.keys.Nodup
  keys : bag.keys = (pairs.map Prod.fst).eraseDups
  get? : ∀ key, bag.get? key = pairs.reverse.lookup key

theorem keeps_empty : (∅ : Bag α).Keeps [] where
  distinct := List.nodup_nil
  keys := rfl
  get? _ := rfl

theorem Keeps.insert (keeps : bag.Keeps pairs) (key : String) (value : α) :
    (bag.insert key value).Keeps (pairs ++ [(key, value)]) where
  distinct := (bag.insert key value).distinct
  keys := by
    have known : key ∈ bag.keys ↔ key ∈ pairs.map Prod.fst := by
      rw [keeps.keys, List.mem_eraseDups]
    rw [keys_insert, List.map_append, List.map_singleton, List.eraseDups_append, ← keeps.keys]
    by_cases present : key ∈ bag.keys
    · have nothingNew : [key].removeAll (pairs.map Prod.fst) = [] := by
        simp [List.removeAll, known.mp present]
      rw [if_pos present, nothingNew]
      exact (List.append_nil _).symm
    · have isNew : [key].removeAll (pairs.map Prod.fst) = [key] := by
        simp [List.removeAll, mt known.mpr present]
      rw [if_neg present, isNew]
      rfl
  get? other := by
    rw [get?_insert, keeps.get?, List.reverse_append, List.reverse_singleton, List.singleton_append,
      List.lookup_cons]
    by_cases same : key = other
    · rw [if_pos same, beq_iff_eq.mpr same.symm]
    · rw [if_neg same, beq_false_of_ne (Ne.symm same)]

theorem Keeps.foldl_insert (keeps : bag.Keeps earlier) (pairs : List (String × α)) :
    (pairs.foldl (fun bag pair => bag.insert pair.1 pair.2) bag).Keeps (earlier ++ pairs) := by
  induction pairs generalizing bag earlier with
  | nil => rwa [List.append_nil]
  | cons pair others ih =>
    have rest := ih (keeps.insert pair.1 pair.2)
    rwa [List.append_assoc] at rest

theorem keeps_ofList (pairs : List (String × α)) : (ofList pairs).Keeps pairs :=
  keeps_empty.foldl_insert pairs

theorem keeps_entries (bag : Bag α) : bag.Keeps bag.entries := by
  have keeps := keeps_ofList bag.entries
  rwa [ofList_entries] at keeps

/-- What was put into a bag determines it. -/
theorem Keeps.eq_ofList (keeps : bag.Keeps pairs) : bag = ofList pairs := by
  apply ext_entries
  rw [entries_eq_filterMap, entries_eq_filterMap, keeps.keys, (keeps_ofList pairs).keys]
  refine List.filterMap_congr fun key _ => ?_
  rw [keeps.get?, (keeps_ofList pairs).get?]

/-- Puts pairs into a bag one after the other; with what each of them replaced. -/
def putAll (bag : Bag α) : List (String × α) → List (Option α) × Bag α
  | [] => ([], bag)
  | (key, value) :: others =>
    let (replaced, next) := bag.put key value
    let (later, last) := next.putAll others
    (replaced :: later, last)

theorem Keeps.putAll (keeps : bag.Keeps earlier) (pairs : List (String × α)) :
    (bag.putAll pairs).2.Keeps (earlier ++ pairs)
      ∧ (bag.putAll pairs).1
        = pairs.mapIdx fun i pair => (earlier ++ pairs.take i).reverse.lookup pair.1 := by
  induction pairs generalizing bag earlier with
  | nil =>
    rw [List.append_nil]
    exact ⟨keeps, rfl⟩
  | cons pair others ih =>
    obtain ⟨key, value⟩ := pair
    obtain ⟨kept, replaced⟩ := ih (keeps.insert key value)
    rw [List.append_assoc] at kept
    refine ⟨kept, ?_⟩
    rw [List.mapIdx_cons, List.take_zero, List.append_nil, ← keeps.get?]
    simp only [List.append_assoc] at replaced
    exact congrArg _ replaced

/-!
## Reading and writing
-/

/-- A bag is read from an object, whose members are put in one after the other. -/
theorem ofList_membersOf_eq_ok_iff {decode : Draft → Decoded α} {draft : Draft} :
    ofList <$> membersOf decode draft = .ok bag
      ↔ ∃ pairs, draft.Gives decode pairs ∧ bag.Keeps pairs := by
  simp only [map_eq_ok_iff, membersOf_eq_ok_iff]
  constructor
  · rintro ⟨pairs, given, rfl⟩
    exact ⟨pairs, given, keeps_ofList pairs⟩
  · rintro ⟨pairs, given, keeps⟩
    exact ⟨pairs, given, keeps.eq_ofList.symm⟩

theorem readIntegers_eq_ok_iff {text : String} {bag : Bag Int} :
    readIntegers text = .ok bag
      ↔ ∃ draft pairs, ofText text = (draft, true) ∧ draft.Gives asInteger pairs ∧ bag.Keeps pairs := by
  rw [readIntegers, map_eq_ok_iff]
  constructor
  · rintro ⟨pairs, read, rfl⟩
    obtain ⟨draft, whole, decoded⟩ := read_eq_ok_iff.mp read
    exact ⟨draft, pairs, whole, membersOf_eq_ok_iff.mp decoded, keeps_ofList pairs⟩
  · rintro ⟨draft, pairs, whole, given, keeps⟩
    have read : Json.read (asMembers fun _ => asInteger) text = .ok pairs :=
      read_eq_ok_iff.mpr ⟨draft, whole, membersOf_eq_ok_iff.mpr given⟩
    exact ⟨pairs, read, keeps.eq_ofList.symm⟩

/-- What is written for a bag has a member for each key, in the order of the keys. -/
theorem ofText_text_toJson (style : Style) (encode : α → Json) (bag : Bag α) :
    ofText ((bag.toJson encode).text style)
      = (object (bag.keys.filterMap fun key =>
          (bag.get? key).map fun value => (some key, ofJson (encode value))) true, true) := by
  have values (key : String) :
      ((bag.get? key).map (key, ·)).map (fun entry => (some entry.1, ofJson (encode entry.2)))
        = (bag.get? key).map fun value => (some key, ofJson (encode value)) :=
    Option.map_map _ _ _
  have members : ofMembers (bag.entries.map fun entry => (entry.1, encode entry.2))
      = bag.keys.filterMap fun key =>
          (bag.get? key).map fun value => (some key, ofJson (encode value)) := by
    rw [ofMembers_eq_map, List.map_map, entries_eq_filterMap, List.map_filterMap]
    exact congrArg (List.filterMap · bag.keys) (funext values)
  rw [ofText_text]
  exact congrArg (fun members => (object members true, true)) members

end Bag

namespace Schema

/-!
## Declarations
-/

/-- The pairs that properties put into a bag. -/
def memberPairs (properties : List Property) : List (String × Member) :=
  properties.map fun property => (property.field.name, memberOfProperty property)

/-- The pairs that parameters put into a bag. -/
def argumentPairs (parameters : List Parameter) : List (String × Argument) :=
  parameters.map fun parameter => (parameter.name, argumentOfParameter parameter)

theorem membersOfProperties_eq_foldl (bag : Bag Member) (properties : List Property) :
    membersOfProperties bag properties
      = (memberPairs properties).foldl (fun bag pair => bag.insert pair.1 pair.2) bag := by
  induction properties generalizing bag with
  | nil => rfl
  | cons property others ih =>
    rw [membersOfProperties, ih]
    rfl

theorem keeps_membersOfProperties (properties : List Property) :
    (membersOfProperties ∅ properties).Keeps (memberPairs properties) := by
  rw [membersOfProperties_eq_foldl]
  exact Bag.keeps_ofList (memberPairs properties)

theorem get?_membersOfProperties (properties : List Property) (name : String) :
    (membersOfProperties ∅ properties).get? name
      = (properties.reverse.find? fun property => property.field.name = name).map
          memberOfProperty := by
  have found (properties : List Property) : (memberPairs properties).lookup name
      = (properties.find? fun property => property.field.name = name).map memberOfProperty := by
    induction properties with
    | nil => rfl
    | cons property others ih =>
      rw [memberPairs, List.map_cons, List.lookup_cons, List.find?_cons, ← memberPairs, ih]
      by_cases same : property.field.name = name
      · rw [beq_iff_eq.mpr same.symm, decide_eq_true same]
        rfl
      · rw [beq_false_of_ne (Ne.symm same), decide_eq_false same]
  rw [(keeps_membersOfProperties properties).get?, memberPairs, ← List.map_reverse, ← memberPairs,
    found]

/-- The properties at a path: those inside the last property of each name. -/
def propertiesAt? (properties : List Property) : List String → Option (List Property)
  | [] => some properties
  | name :: path =>
    match properties.reverse.find? fun property => property.field.name = name with
    | some (.inline _ inner) => propertiesAt? inner path
    | _ => none

/-- The members at a path. -/
def membersAt? (members : Bag Member) : List String → Option (Bag Member)
  | [] => some members
  | name :: path =>
    match members.get? name with
    | some (.inline _ inner) => membersAt? inner path
    | _ => none

/-- At every path there are members exactly where there are properties, and they keep what those put
in. -/
def KeepsEveryLevel (properties : List Property) (members : Bag Member) : Prop :=
  ∀ path, Option.Rel (fun inner members => members.Keeps (memberPairs inner))
    (propertiesAt? properties path) (membersAt? members path)

theorem keepsEveryLevel_membersOfProperties (properties : List Property) :
    KeepsEveryLevel properties (membersOfProperties ∅ properties) := by
  intro path
  induction path generalizing properties with
  | nil => exact .some (keeps_membersOfProperties properties)
  | cons name path ih =>
    rw [propertiesAt?, membersAt?, get?_membersOfProperties]
    cases properties.reverse.find? fun property => property.field.name = name with
    | none => exact .none
    | some property =>
      cases property with
      | plain field => exact .none
      | inline field inner => exact ih inner

def TypeEntry.record? : TypeEntry → Option Record
  | record declared => some declared
  | enumeration _ => none

theorem forall₂_filterMap {α β γ : Type} {related : β → γ → Prop} {left : α → Option β}
    {right : α → Option γ} (each : ∀ item, Option.Rel related (left item) (right item))
    (items : List α) : List.Forall₂ related (items.filterMap left) (items.filterMap right) := by
  induction items with
  | nil => exact .nil
  | cons item others ih =>
    have here := each item
    rw [List.filterMap_cons, List.filterMap_cons]
    generalize left item = first, right item = second at here ⊢
    cases here with
    | none => exact ih
    | some rel => exact .cons rel ih

end Schema

namespace Entity

def dataType? : Entity → Option DataType
  | dataType declared => some declared
  | _ => none

def method? : Entity → Option Method
  | method declared => some declared
  | _ => none

end Entity

namespace Schema

theorem forall₂_records (entities : List Entity) :
    List.Forall₂
      (fun declared record => KeepsEveryLevel declared.properties record.members)
      (entities.filterMap Entity.dataType?)
      ((ofEntities entities).types.filterMap TypeEntry.record?) := by
  rw [ofEntities, List.filterMap_filterMap]
  refine forall₂_filterMap (fun entity => ?_) entities
  cases entity with
  | comment | enumeration | method => exact .none
  | dataType declared => exact .some (keepsEveryLevel_membersOfProperties declared.properties)

theorem forall₂_operations (entities : List Entity) :
    List.Forall₂
      (fun declared operation => operation.arguments.Keeps (argumentPairs declared.parameters))
      (entities.filterMap Entity.method?) (ofEntities entities).operations := by
  refine forall₂_filterMap (fun entity => ?_) entities
  cases entity with
  | comment | enumeration | dataType => exact .none
  | method declared => exact .some (Bag.keeps_ofList (argumentPairs declared.parameters))

/-- However a bag is filled, its keys stand where they came first and have the values that came last:
by insertions, each of which gives what it replaced; from a list; from a JSON object; and from the
properties at every depth of a data type or the parameters of a method. It is written in the order of
its keys. -/
theorem bags_keep_first_places_and_last_values :
    (∀ (α : Type) (bag : Bag α) (pairs : List (String × α)),
      (bag.putAll pairs).2.Keeps (bag.entries ++ pairs)
        ∧ (bag.putAll pairs).1
          = pairs.mapIdx fun i pair => (bag.entries ++ pairs.take i).reverse.lookup pair.1)
    ∧ (∀ (α : Type) (pairs : List (String × α)), (Bag.ofList pairs).Keeps pairs)
    ∧ (∀ (α : Type) (decode : Nat → Draft → Decoded α) (levels : Nat) (draft : Draft) (bag : Bag α),
      Bag.ofList <$> asMembers decode (levels + 1) draft = .ok bag
        ↔ ∃ pairs, draft.Gives (decode levels) pairs ∧ bag.Keeps pairs)
    ∧ (∀ levels draft members, decodeMembers (levels + 1) draft = .ok members
      ↔ ∃ pairs, draft.Gives (decodeMember levels) pairs ∧ members.Keeps pairs)
    ∧ (∀ text bag, Bag.readIntegers text = .ok bag
      ↔ ∃ draft pairs, ofText text = (draft, true) ∧ draft.Gives asInteger pairs ∧ bag.Keeps pairs)
    ∧ (∀ entities, List.Forall₂
      (fun declared record => KeepsEveryLevel declared.properties record.members)
      (entities.filterMap Entity.dataType?)
      ((ofEntities entities).types.filterMap TypeEntry.record?))
    ∧ (∀ entities, List.Forall₂
      (fun declared operation => operation.arguments.Keeps (argumentPairs declared.parameters))
      (entities.filterMap Entity.method?) (ofEntities entities).operations)
    ∧ (∀ (α : Type) (style : Style) (encode : α → Json) (bag : Bag α),
      ofText ((bag.toJson encode).text style)
        = (object (bag.keys.filterMap fun key =>
            (bag.get? key).map fun value => (some key, ofJson (encode value))) true, true))
    ∧ ∀ members : Bag Member, Json.object (rowJson members.row) = members.toJson memberJson := by
  refine ⟨fun _ bag pairs => (Bag.keeps_entries bag).putAll pairs, fun _ => Bag.keeps_ofList,
    fun _ _ _ _ _ => Bag.ofList_membersOf_eq_ok_iff, fun _ _ _ => Bag.ofList_membersOf_eq_ok_iff,
    fun _ _ => Bag.readIntegers_eq_ok_iff, forall₂_records, forall₂_operations,
    fun _ => Bag.ofText_text_toJson, fun members => ?_⟩
  exact congrArg Json.object (rowJson_eq_map members.row)

example : Bag.entries <$> Bag.readIntegers "\x7b\"b\": 1, \"a\": 2, \"b\": 3\x7d"
    = .ok [("b", 3), ("a", 2)] := by
  cbv

end Schema

end ApiDef
