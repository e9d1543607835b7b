import ApiDef.Schema.Bag
import Mathlib.Data.List.Basic
set_option autoImplicit false

/-!
# The entries of a bag

A bag is its entries: a list of pairs of which no two have the same key. Inserting a value replaces
the entry of its key where it stands, or adds one behind the others.
-/

namespace ApiDef

namespace Row

variable {α : Type} {key : String} {keys : List String}

theorem entries_push (row : Row α keys) (value : α) :
    (row.push value : Row α (keys ++ [key])).entries = row.entries ++ [(key, value)] := by
  induction row with
  | nil => rfl
  | cons first others ih => exact congrArg _ ih

theorem map_entries_of_not_mem (row : Row α keys) (value : α) (absent : key ∉ keys) :
    (row.entries.map fun entry => if entry.1 = key then (entry.1, value) else entry) = row.entries := by
  induction row with
  | nil => rfl
  | cons first others ih =>
    rw [List.mem_cons, not_or] at absent
    rw [entries, List.map_cons, ih absent.2, if_neg (Ne.symm absent.1)]

theorem entries_set (row : Row α keys) (value : α) (distinct : keys.Nodup) :
    (row.set key value).entries
      = row.entries.map fun entry => if entry.1 = key then (entry.1, value) else entry := by
  induction row with
  | nil => rfl
  | @cons first keys old others ih =>
    obtain ⟨notLater, distinctLater⟩ := List.nodup_cons.mp distinct
    rw [set, entries, List.map_cons]
    by_cases same : first = key
    · subst same
      rw [if_pos rfl, if_pos rfl, entries, map_entries_of_not_mem others value notLater]
    · rw [if_neg same, if_neg same, entries, ih distinctLater]

theorem entries_injective {left right : Row α keys} (same : left.entries = right.entries) :
    left = right := by
  induction left with
  | nil =>
    cases right
    rfl
  | cons value others ih =>
    cases right with
    | cons value' others' =>
      obtain ⟨heads, tails⟩ := List.cons.inj same
      rw [(Prod.mk.inj heads).2, ih tails]

theorem get?_set (row : Row α keys) (value : α) (present : key ∈ keys) (other : String) :
    (row.set key value).get? other = if key = other then some value else row.get? other := by
  induction row with
  | nil => cases present
  | @cons first keys old others ih =>
    rw [set]
    by_cases same : first = key
    · subst same
      rw [if_pos rfl, get?, get?]
      split
      next => rfl
      next => rfl
    · have later : key ∈ keys := (List.mem_cons.mp present).resolve_left (Ne.symm same)
      rw [if_neg same, get?, get?, ih later]
      by_cases isFirst : first = other
      · have notKey : key ≠ other := fun isKey => same (isFirst.trans isKey.symm)
        rw [if_pos isFirst, if_neg notKey, if_pos isFirst]
      · rw [if_neg isFirst, if_neg isFirst]

theorem get?_push (row : Row α keys) (value : α) (absent : key ∉ keys) (other : String) :
    (row.push value : Row α (keys ++ [key])).get? other
      = if key = other then some value else row.get? other := by
  induction row with
  | nil => rfl
  | @cons first keys old others ih =>
    rw [List.mem_cons, not_or] at absent
    obtain ⟨notFirst, notLater⟩ := absent
    refine (congrArg (if first = other then some old else ·) (ih notLater)).trans ?_
    rw [get?]
    by_cases isFirst : first = other
    · have notKey : key ≠ other := fun isKey => notFirst (isKey.trans isFirst.symm)
      rw [if_pos isFirst, if_neg notKey, if_pos isFirst]
    · rw [if_neg isFirst, if_neg isFirst]

/-- The entries of a row are found under their keys. -/
theorem entries_eq_filterMap (row : Row α keys) (distinct : keys.Nodup) :
    row.entries = keys.filterMap fun key => (row.get? key).map (key, ·) := by
  induction row with
  | nil => rfl
  | @cons first keys value others ih =>
    obtain ⟨notLater, distinctLater⟩ := List.nodup_cons.mp distinct
    have head : (cons value others : Row α (first :: keys)).get? first = some value := if_pos rfl
    rw [entries, ih distinctLater, List.filterMap_cons, head]
    refine congrArg _ (List.filterMap_congr fun key later => ?_)
    have notFirst : first ≠ key := fun same => notLater (same ▸ later)
    rw [get?, if_neg notFirst]

end Row

namespace Bag

variable {α : Type} {bag : Bag α} {key : String} {value : α}

theorem map_fst_entries (bag : Bag α) : bag.entries.map (·.1) = bag.keys :=
  bag.row.keys_entries

theorem ext_entries {left right : Bag α} (same : left.entries = right.entries) : left = right := by
  obtain ⟨keys, distinct, row⟩ := left
  obtain ⟨keys', distinct', row'⟩ := right
  obtain rfl : keys = keys' := by
    have keysSame := congrArg (List.map (·.1)) same
    rwa [map_fst_entries, map_fst_entries] at keysSame
  obtain rfl : row = row' := Row.entries_injective same
  rfl

theorem keys_insert (bag : Bag α) (key : String) (value : α) :
    (bag.insert key value).keys = if key ∈ bag.keys then bag.keys else bag.keys ++ [key] := by
  unfold insert
  split
  next => rfl
  next => rfl

theorem get?_insert (bag : Bag α) (key : String) (value : α) (other : String) :
    (bag.insert key value).get? other = if key = other then some value else bag.get? other := by
  unfold insert
  split
  next present => exact Row.get?_set bag.row value present other
  next absent => exact Row.get?_push bag.row value absent other

theorem entries_eq_filterMap (bag : Bag α) :
    bag.entries = bag.keys.filterMap fun key => (bag.get? key).map (key, ·) :=
  Row.entries_eq_filterMap bag.row bag.distinct

theorem entries_insert_present (present : key ∈ bag.keys) :
    (bag.insert key value).entries
      = bag.entries.map fun entry => if entry.1 = key then (entry.1, value) else entry := by
  rw [insert, dif_pos present]
  exact Row.entries_set bag.row value bag.distinct

theorem entries_insert_new (new : key ∉ bag.keys) :
    (bag.insert key value).entries = bag.entries ++ [(key, value)] := by
  rw [insert, dif_neg new]
  exact Row.entries_push bag.row value

theorem entries_foldl_insert (bag : Bag α) {pairs : List (String × α)}
    (distinct : (bag.keys ++ pairs.map (·.1)).Nodup) :
    (pairs.foldl (fun bag pair => bag.insert pair.1 pair.2) bag).entries = bag.entries ++ pairs := by
  induction pairs generalizing bag with
  | nil => rw [List.foldl_nil, List.append_nil]
  | cons pair others ih =>
    have new : pair.1 ∉ bag.keys := by
      intro present
      rw [List.map_cons, List.nodup_append] at distinct
      exact distinct.2.2 _ present _ List.mem_cons_self rfl
    have keys : (bag.insert pair.1 pair.2).keys = bag.keys ++ [pair.1] := by
      rw [keys_insert, if_neg new]
    rw [List.foldl_cons, ih, entries_insert_new new, List.append_assoc]
    · rfl
    · rwa [keys, List.append_assoc]

/-- Pairs of which no two have the same key are the entries of their bag. -/
theorem entries_ofList {pairs : List (String × α)} (distinct : (pairs.map (·.1)).Nodup) :
    (ofList pairs).entries = pairs :=
  entries_foldl_insert ∅ distinct

theorem ofList_entries (bag : Bag α) : ofList bag.entries = bag := by
  apply ext_entries
  apply entries_ofList
  rw [map_fst_entries]
  exact bag.distinct

/-- What holds of the values before and of the new one holds of all values afterwards. -/
theorem forall_mem_insert {good : String × α → Prop} (held : ∀ entry ∈ bag.entries, good entry)
    (new : good (key, value)) : ∀ entry ∈ (bag.insert key value).entries, good entry := by
  intro entry member
  by_cases present : key ∈ bag.keys
  · rw [entries_insert_present present] at member
    obtain ⟨earlier, inside, rfl⟩ := List.mem_map.mp member
    split
    next same =>
      rw [same]
      exact new
    next => exact held earlier inside
  · rw [entries_insert_new present] at member
    rcases List.mem_append.mp member with inside | last
    · exact held entry inside
    · rw [List.mem_singleton.mp last]
      exact new

theorem forall_mem_foldl_insert {good : String × α → Prop} {pairs : List (String × α)}
    (held : ∀ entry ∈ bag.entries, good entry) (new : ∀ pair ∈ pairs, good pair) :
    ∀ entry ∈ (pairs.foldl (fun bag pair => bag.insert pair.1 pair.2) bag).entries, good entry := by
  induction pairs generalizing bag with
  | nil => exact held
  | cons pair others ih =>
    obtain ⟨first, rest⟩ := List.forall_mem_cons.mp new
    exact ih (forall_mem_insert held first) rest

theorem forall_mem_ofList {good : String × α → Prop} {pairs : List (String × α)}
    (each : ∀ pair ∈ pairs, good pair) : ∀ entry ∈ (ofList pairs).entries, good entry :=
  forall_mem_foldl_insert (List.forall_mem_nil _) each

end Bag

end ApiDef
