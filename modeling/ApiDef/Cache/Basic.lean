set_option autoImplicit false

/-!
# Caches

A cache keeps the outcome of reading a text for whoever asked for it. When it is full, the entry with
the fewest uses makes room; among several of those, the one whose last use is longest ago. The clock may
read the same at several uses. Then it is the first of the entries in question that goes, and the order
in which a map lists its entries is left open.
-/

namespace ApiDef

namespace Cache

/-- What an outcome is kept under: who asked, and the text. -/
structure Key where
  consumer : String
  source : String
deriving DecidableEq, Repr

/-- An outcome that is kept, how often it has been used, and what the clock read at its last use. Being
put in counts as a use. -/
structure Entry (α : Type) where
  key : Key
  outcome : α
  uses : Nat
  lastUse : Nat
deriving DecidableEq, Repr

/-- What an action finds around it: the reading of the clock, and some order to go through the entries
in. -/
structure Moment (α : Type) where
  now : Nat
  order : List (Entry α) → List (Entry α)
  perm : ∀ entries, (order entries).Perm entries

/-- A moment at which the entries are gone through as they stand. -/
def Moment.at {α : Type} (now : Nat) : Moment α := ⟨now, id, .refl⟩

/-- The number of entries that a cache may have where none is given. -/
def defaultCapacity : Nat := 64

/-- What a cache reports. The counts and the size are kept beside the entries, so every action brings
them up to date. -/
structure Statistics where
  hits : Nat
  misses : Nat
  evictions : Nat
  size : Nat
  capacity : Nat
deriving DecidableEq, Repr

end Cache

/-- Outcomes by key. The order of the entries has no meaning. -/
structure Cache (α : Type) extends Cache.Statistics where
  entries : List (Cache.Entry α)
deriving DecidableEq, Repr

namespace Cache

variable {α : Type}

def empty (capacity : Nat) : Cache α := ⟨⟨0, 0, 0, 0, capacity⟩, []⟩

def isEmpty (cache : Cache α) : Bool := cache.entries.isEmpty

def find? (cache : Cache α) (key : Key) : Option (Entry α) :=
  cache.entries.find? fun entry => entry.key = key

def without (entries : List (Entry α)) (key : Key) : List (Entry α) :=
  entries.filter fun entry => entry.key ≠ key

/-- Looks a key up. A hit is a use. -/
def lookup (cache : Cache α) (now : Nat) (key : Key) : Option α × Cache α :=
  match cache.find? key with
  | some entry =>
    (some entry.outcome,
      { cache with
        entries :=
          without cache.entries key ++ [{ entry with uses := entry.uses + 1, lastUse := now }]
        hits := cache.hits + 1 })
  | none => (none, { cache with misses := cache.misses + 1 })

/-- One entry has been used less than another: fewer times, or as often and before it. -/
def Entry.UsedLess (entry other : Entry α) : Prop :=
  entry.uses < other.uses ∨ entry.uses = other.uses ∧ entry.lastUse < other.lastUse

instance (entry other : Entry α) : Decidable (entry.UsedLess other) :=
  inferInstanceAs (Decidable (_ ∨ _))

/-- The first entry such that no other has been used less. -/
def leastUsed? : List (Entry α) → Option (Entry α)
  | [] => none
  | entry :: others =>
    match leastUsed? others with
    | none => some entry
    | some other => if other.UsedLess entry then some other else some entry

def evict (cache : Cache α) (moment : Moment α) : Cache α :=
  match leastUsed? (moment.order cache.entries) with
  | none => cache
  | some victim =>
    { cache with
      entries := without cache.entries victim.key
      evictions := cache.evictions + 1 }

/-- The cache with room for a key: it evicts only when it is full and the key is new. -/
def makeRoom (cache : Cache α) (moment : Moment α) (key : Key) : Cache α :=
  if cache.capacity ≤ cache.entries.length ∧ (cache.find? key).isNone then cache.evict moment
  else cache

/-- Keeps an outcome under a key. An earlier outcome of the key gives way, and its uses are forgotten.
A cache without capacity keeps nothing. -/
def insert (cache : Cache α) (moment : Moment α) (key : Key) (outcome : α) : Cache α :=
  if cache.capacity = 0 then cache
  else
    let cache := cache.makeRoom moment key
    let entries := without cache.entries key ++ [⟨key, outcome, 1, moment.now⟩]
    { cache with entries, size := entries.length }

/-- The outcome of a key; when it is not there, it is computed from the source and kept. -/
def fetch (cache : Cache α) (moment : Moment α) (key : Key) (compute : String → α) : α × Cache α :=
  match cache.lookup moment.now key with
  | (some outcome, cache) => (outcome, cache)
  | (none, cache) =>
    let outcome := compute key.source
    (outcome, cache.insert moment key outcome)

def invalidate (cache : Cache α) (consumer : String) : Cache α :=
  let entries := cache.entries.filter fun entry => entry.key.consumer ≠ consumer
  { cache with entries, size := entries.length }

/-- Drops everything, and starts counting anew. -/
def clear (cache : Cache α) : Cache α := empty cache.capacity

end Cache

end ApiDef
