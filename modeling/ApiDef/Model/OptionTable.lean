set_option autoImplicit false

/-!
# Option tables

The named options of a tag: pairs in ascending order of their keys, no key twice. Keys are
ordered by code points. The order belongs to the type, so two tables with the same entries are
equal.
-/

namespace ApiDef

/-- A finite map from keys to values, in the order of its keys. -/
structure OptionTable where
  entries : List (String × String)
  ascending : entries.Pairwise fun left right => left.1 < right.1

namespace OptionTable

instance : DecidableEq OptionTable := fun left right =>
  if same : left.entries = right.entries then
    isTrue (by cases left; cases right; simp_all)
  else isFalse fun equal => same (congrArg entries equal)

@[ext] theorem ext {left right : OptionTable} (same : left.entries = right.entries) :
    left = right := by
  cases left; cases right; simp_all

def empty : OptionTable := ⟨[], .nil⟩

instance : EmptyCollection OptionTable := ⟨empty⟩

instance : Inhabited OptionTable := ⟨empty⟩

instance : Repr OptionTable := ⟨fun table => reprPrec table.entries⟩

/-- Puts a pair in its place among ascending pairs; a pair with the same key gives way. -/
def insertEntry (key value : String) : List (String × String) → List (String × String)
  | [] => [(key, value)]
  | entry :: others =>
    if key < entry.1 then (key, value) :: entry :: others
    else if key = entry.1 then (key, value) :: others
    else entry :: insertEntry key value others

theorem mem_insertEntry {key value : String} {entry : String × String}
    {entries : List (String × String)} (member : entry ∈ insertEntry key value entries) :
    entry = (key, value) ∨ entry ∈ entries := by
  induction entries with
  | nil => simpa [insertEntry] using member
  | cons head others ih =>
    simp only [insertEntry] at member
    split at member
    · simpa using member
    · split at member
      · rcases List.mem_cons.mp member with here | there
        · exact Or.inl here
        · exact Or.inr (List.mem_cons_of_mem _ there)
      · rcases List.mem_cons.mp member with here | there
        · exact Or.inr (here ▸ List.mem_cons_self)
        · rcases ih there with new | old
          · exact Or.inl new
          · exact Or.inr (List.mem_cons_of_mem _ old)

private theorem lt_of_not_lt_of_ne {left right : String} (notLess : ¬left < right)
    (different : left ≠ right) : right < left := by
  rcases String.le_total left right with le | le
  · exact absurd (String.le_antisymm le (String.not_lt.mp notLess)) different
  · exact String.not_le.mp fun other => different (String.le_antisymm other le)

theorem pairwise_insertEntry (key value : String) {entries : List (String × String)}
    (ascending : entries.Pairwise fun left right => left.1 < right.1) :
    (insertEntry key value entries).Pairwise fun left right => left.1 < right.1 := by
  induction entries with
  | nil => simp [insertEntry]
  | cons head others ih =>
    obtain ⟨headFirst, othersAscending⟩ := List.pairwise_cons.mp ascending
    simp only [insertEntry]
    split
    next less =>
      refine List.pairwise_cons.mpr ⟨fun entry member => ?_, ascending⟩
      rcases List.mem_cons.mp member with here | there
      · exact here ▸ less
      · exact String.lt_trans less (headFirst entry there)
    next notLess =>
      split
      next same =>
        exact List.pairwise_cons.mpr
          ⟨fun entry member => same ▸ headFirst entry member, othersAscending⟩
      next different =>
        refine List.pairwise_cons.mpr ⟨fun entry member => ?_, ih othersAscending⟩
        rcases mem_insertEntry member with new | old
        · exact new ▸ lt_of_not_lt_of_ne notLess different
        · exact headFirst entry old

/-- The table with one more pair; an earlier value of the key is replaced. -/
def insert (table : OptionTable) (key value : String) : OptionTable :=
  ⟨insertEntry key value table.entries, pairwise_insertEntry key value table.ascending⟩

/-- The table of the given pairs; of several values of one key the last one counts. -/
def ofList (pairs : List (String × String)) : OptionTable :=
  pairs.foldl (fun table pair => table.insert pair.1 pair.2) ∅

def get? (table : OptionTable) (key : String) : Option String :=
  (table.entries.find? fun entry => entry.1 = key).map (·.2)

def isEmpty (table : OptionTable) : Bool := table.entries.isEmpty

end OptionTable

end ApiDef
