set_option autoImplicit false

/-!
# Bags

A bag maps keys to values and keeps its keys in the order in which they came first. Putting a value
under a key that is there replaces the old value where it stands. No key occurs twice: the keys are
a list of their own, and a row holds one value for each of them.
-/

namespace ApiDef

/-- One value for each of several keys. -/
inductive Row (α : Type) : List String → Type where
  | nil : Row α []
  | cons {key : String} {keys : List String} (value : α) (others : Row α keys) :
      Row α (key :: keys)
deriving Repr

namespace Row

variable {α : Type}

def entries : {keys : List String} → Row α keys → List (String × α)
  | _, nil => []
  | key :: _, cons value others => (key, value) :: others.entries

def get? : {keys : List String} → Row α keys → String → Option α
  | _, nil, _ => none
  | first :: _, cons value others, key => if first = key then some value else others.get? key

def set : {keys : List String} → Row α keys → String → α → Row α keys
  | _, nil, _, _ => nil
  | first :: _, cons value others, key, new =>
    if first = key then cons new others else cons value (others.set key new)

def push {key : String} : {keys : List String} → Row α keys → α → Row α (keys ++ [key])
  | _, nil, new => cons new nil
  | _ :: _, cons value others, new => cons value (others.push new)

@[simp] theorem keys_entries {keys : List String} (row : Row α keys) :
    row.entries.map (·.1) = keys := by
  induction row with
  | nil => rfl
  | cons value others ih => simp [entries, ih]

end Row

/-- An ordered map from keys to values. -/
structure Bag (α : Type) where
  keys : List String
  distinct : keys.Nodup
  row : Row α keys

namespace Bag

variable {α : Type}

def empty : Bag α := ⟨[], .nil, .nil⟩

instance : EmptyCollection (Bag α) := ⟨empty⟩

instance : Inhabited (Bag α) := ⟨empty⟩

/-- The keys with their values, in order. -/
def entries (bag : Bag α) : List (String × α) := bag.row.entries

instance [Repr α] : Repr (Bag α) := ⟨fun bag => reprPrec bag.entries⟩

def get? (bag : Bag α) (key : String) : Option α := bag.row.get? key

def values (bag : Bag α) : List α := bag.entries.map (·.2)

def size (bag : Bag α) : Nat := bag.keys.length

def isEmpty (bag : Bag α) : Bool := bag.keys.isEmpty

theorem distinct_append {keys : List String} (distinct : keys.Nodup) {key : String}
    (new : key ∉ keys) : (keys ++ [key]).Nodup := by
  rw [List.nodup_append]
  refine ⟨distinct, by simp, ?_⟩
  intro member inside other same
  rw [List.mem_singleton.mp same]
  exact fun equal => new (equal ▸ inside)

/-- The bag in which a key has a value: the place of a key that is there does not change, and a new
key comes last. -/
def insert (bag : Bag α) (key : String) (value : α) : Bag α :=
  if present : key ∈ bag.keys then ⟨bag.keys, bag.distinct, bag.row.set key value⟩
  else ⟨bag.keys ++ [key], distinct_append bag.distinct present, bag.row.push value⟩

/-- Inserts, and gives the value that was replaced. -/
def put (bag : Bag α) (key : String) (value : α) : Option α × Bag α :=
  (bag.get? key, bag.insert key value)

/-- The bag of the given pairs; of several values of one key the last one counts. -/
def ofList (pairs : List (String × α)) : Bag α :=
  pairs.foldl (fun bag pair => bag.insert pair.1 pair.2) ∅

end Bag

end ApiDef
