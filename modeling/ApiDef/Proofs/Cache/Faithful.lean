import ApiDef.Cache.Reading
import Mathlib.Logic.Function.Basic
set_option autoImplicit false

/-!
# Faithful caches

An outcome is kept under a consumer and a text, and not under the options it was read with. So a
cache answers like a reading only as long as every consumer keeps its options until its entries are
invalidated. A cache is faithful to the options in use when each entry is what reading its text with
the options of its consumer gives; every action of such a history keeps the cache faithful.
-/

namespace ApiDef

namespace Cache

section

variable {α : Type} {cache : Cache α} {now : Nat} {moment : Moment α} {key : Key} {entry : Entry α}

theorem mem_of_mem_without {entries : List (Entry α)} (member : entry ∈ without entries key) :
    entry ∈ entries :=
  (List.mem_filter.mp member).1

theorem mem_and_key_of_find? (found : cache.find? key = some entry) :
    entry ∈ cache.entries ∧ entry.key = key := by
  constructor
  · exact List.mem_of_find?_eq_some found
  · simpa using List.find?_some found

/-- What is looked up is the outcome of an entry. -/
theorem exists_entry_of_lookup {outcome : α} (found : (cache.lookup now key).1 = some outcome) :
    ∃ entry ∈ cache.entries, entry.key = key ∧ entry.outcome = outcome := by
  cases kept : cache.find? key with
  | none => simp [lookup, kept] at found
  | some entry =>
    obtain ⟨member, sameKey⟩ := mem_and_key_of_find? kept
    simp only [lookup, kept, Option.some.injEq] at found
    exact ⟨entry, member, sameKey, found⟩

/-- Looking up adds no outcome. -/
theorem exists_entry_of_mem_lookup (member : entry ∈ (cache.lookup now key).2.entries) :
    ∃ earlier ∈ cache.entries, earlier.key = entry.key ∧ earlier.outcome = entry.outcome := by
  cases kept : cache.find? key with
  | none =>
    simp only [lookup, kept] at member
    exact ⟨entry, member, rfl, rfl⟩
  | some used =>
    simp only [lookup, kept, List.mem_append, List.mem_singleton] at member
    rcases member with member | same
    · exact ⟨entry, mem_of_mem_without member, rfl, rfl⟩
    · obtain ⟨usedMember, -⟩ := mem_and_key_of_find? kept
      exact ⟨used, usedMember, by rw [same], by rw [same]⟩

theorem mem_of_mem_evict (member : entry ∈ (cache.evict moment).entries) : entry ∈ cache.entries := by
  unfold evict at member
  split at member
  · exact member
  · exact mem_of_mem_without member

theorem mem_of_mem_makeRoom (member : entry ∈ (cache.makeRoom moment key).entries) :
    entry ∈ cache.entries := by
  unfold makeRoom at member
  split at member
  · exact mem_of_mem_evict member
  · exact member

theorem mem_insert {outcome : α} (member : entry ∈ (cache.insert moment key outcome).entries) :
    entry = ⟨key, outcome, 1, moment.now⟩ ∨ entry ∈ cache.entries := by
  unfold insert at member
  split at member
  · exact .inr member
  · rcases List.mem_append.mp member with member | new
    · exact .inr (mem_of_mem_makeRoom (mem_of_mem_without member))
    · exact .inl (List.mem_singleton.mp new)

end

/-- One use of a cache of readings. -/
inductive Action where
  | read (consumer : String) (options : Options) (text : String)
  | lookup (consumer : String) (text : String)
  | insert (key : Key) (outcome : Reading)
  | invalidate (consumer : String)
  | clear

/-- The options that each consumer has read with since its entries were last dropped. -/
abbrev InUse : Type := String → Option Options

namespace Action

/-- The cache after an action at some moment. -/
def apply (patternFault? : String → Option String) (cache : Cache Reading) (moment : Moment Reading) :
    Action → Cache Reading
  | read consumer options text => (cache.read patternFault? moment consumer options text).2
  | lookup consumer text => (cache.lookup moment.now ⟨consumer, text⟩).2
  | insert key outcome => cache.insert moment key outcome
  | invalidate consumer => cache.invalidate consumer
  | clear => cache.clear

def inUseAfter (inUse : InUse) : Action → InUse
  | read consumer options _ => Function.update inUse consumer (some options)
  | lookup _ _ => inUse
  | insert _ _ => inUse
  | invalidate consumer => Function.update inUse consumer none
  | clear => fun _ => none

/-- A consumer reads with the options that it has in use, if any, and no outcome is put in by hand. -/
def IsSteady (inUse : InUse) : Action → Prop
  | read consumer options _ => inUse consumer = none ∨ inUse consumer = some options
  | insert _ _ => False
  | lookup _ _ | invalidate _ | clear => True

instance (inUse : InUse) : (action : Action) → Decidable (action.IsSteady inUse)
  | read consumer options _ =>
    inferInstanceAs (Decidable (inUse consumer = none ∨ inUse consumer = some options))
  | insert _ _ => inferInstanceAs (Decidable False)
  | lookup _ _ | invalidate _ | clear => inferInstanceAs (Decidable True)

end Action

/-- An action, and the moment at which it is taken. -/
structure Event where
  moment : Moment Reading
  action : Action

def Event.apply (patternFault? : String → Option String) (cache : Cache Reading) (event : Event) :
    Cache Reading :=
  event.action.apply patternFault? cache event.moment

def Event.inUseAfter (inUse : InUse) (event : Event) : InUse :=
  event.action.inUseAfter inUse

/-- The cache that a history leads to, whatever the clock reads and however the entries are ordered. -/
def reached (patternFault? : String → Option String) (capacity : Nat) (history : List Event) :
    Cache Reading :=
  history.foldl (Event.apply patternFault?) (empty capacity)

def optionsInUse (history : List Event) : InUse :=
  history.foldl Event.inUseAfter fun _ => none

/-- Every consumer keeps its options from one invalidation of its entries to the next. -/
def SteadyFrom : InUse → List Event → Prop
  | _, [] => True
  | inUse, event :: later =>
    event.action.IsSteady inUse ∧ SteadyFrom (event.inUseAfter inUse) later

def Steady (history : List Event) : Prop := SteadyFrom (fun _ => none) history

instance decidableSteadyFrom : (inUse : InUse) → (history : List Event) →
    Decidable (SteadyFrom inUse history)
  | _, [] => inferInstanceAs (Decidable True)
  | inUse, event :: later =>
    have := decidableSteadyFrom (event.inUseAfter inUse) later
    inferInstanceAs (Decidable (event.action.IsSteady inUse ∧ SteadyFrom _ later))

instance (history : List Event) : Decidable (Steady history) :=
  decidableSteadyFrom _ history

section

variable (patternFault? : String → Option String)

/-- Every entry is what reading its text with the options of its consumer gives. -/
def FaithfulTo (inUse : InUse) (cache : Cache Reading) : Prop :=
  ∀ entry ∈ cache.entries, ∃ options, inUse entry.key.consumer = some options
    ∧ entry.outcome = Document.readWith patternFault? options entry.key.source

variable {inUse : InUse} {cache : Cache Reading} {moment : Moment Reading}

theorem faithfulTo_empty (capacity : Nat) : FaithfulTo patternFault? inUse (empty capacity) :=
  fun _ member => absurd member List.not_mem_nil

variable {patternFault?}

namespace FaithfulTo

theorem outcome_of_lookup (faithful : FaithfulTo patternFault? inUse cache) {now : Nat} {key : Key}
    {outcome : Reading} (found : (cache.lookup now key).1 = some outcome) :
    ∃ options, inUse key.consumer = some options
      ∧ outcome = Document.readWith patternFault? options key.source := by
  obtain ⟨entry, member, rfl, rfl⟩ := exists_entry_of_lookup found
  exact faithful entry member

theorem lookup (faithful : FaithfulTo patternFault? inUse cache) (now : Nat) (key : Key) :
    FaithfulTo patternFault? inUse (cache.lookup now key).2 := by
  intro entry member
  obtain ⟨earlier, inCache, sameKey, sameOutcome⟩ := exists_entry_of_mem_lookup member
  rw [← sameKey, ← sameOutcome]
  exact faithful earlier inCache

theorem insert (faithful : FaithfulTo patternFault? inUse cache) (moment : Moment Reading) {key : Key}
    {options : Options} (used : inUse key.consumer = some options) :
    FaithfulTo patternFault? inUse
      (cache.insert moment key (Document.readWith patternFault? options key.source)) := by
  intro entry member
  rcases mem_insert member with rfl | member
  · exact ⟨options, used, rfl⟩
  · exact faithful entry member

/-- Options that come into use where there were none, or the same ones, change no answer. -/
theorem use (faithful : FaithfulTo patternFault? inUse cache) {consumer : String} {options : Options}
    (steady : inUse consumer = none ∨ inUse consumer = some options) :
    FaithfulTo patternFault? (Function.update inUse consumer (some options)) cache := by
  intro entry member
  obtain ⟨own, used, outcome⟩ := faithful entry member
  by_cases same : entry.key.consumer = consumer
  · rw [same] at used ⊢
    rcases steady with unused | kept
    -- A consumer without options in use has no entries.
    · rw [unused] at used
      cases used
    · rw [kept, Option.some.injEq] at used
      exact ⟨own, by rw [Function.update_self, used], outcome⟩
  · exact ⟨own, by rw [Function.update_of_ne same, used], outcome⟩

/-- A reading through a faithful cache gives what a reading without it gives. -/
theorem read (faithful : FaithfulTo patternFault? inUse cache) (moment : Moment Reading)
    {consumer : String} {options : Options} (used : inUse consumer = some options) (text : String) :
    (cache.read patternFault? moment consumer options text).1
        = Document.readWith patternFault? options text
      ∧ FaithfulTo patternFault? inUse (cache.read patternFault? moment consumer options text).2 := by
  have kept := faithful.lookup moment.now ⟨consumer, text⟩
  have found : ∀ outcome, (cache.lookup moment.now ⟨consumer, text⟩).1 = some outcome →
      ∃ options, inUse consumer = some options
        ∧ outcome = Document.readWith patternFault? options text :=
    fun _ => faithful.outcome_of_lookup
  -- Only what the lookup answers and what it leaves in the cache matters from here on.
  unfold Cache.read fetch
  generalize cache.lookup moment.now ⟨consumer, text⟩ = looked at kept found
  obtain ⟨answer, after⟩ := looked
  cases answer with
  | none => exact ⟨rfl, kept.insert moment used⟩
  | some outcome =>
    obtain ⟨own, ownUsed, sameOutcome⟩ := found outcome rfl
    rw [used, Option.some.injEq] at ownUsed
    subst ownUsed
    exact ⟨sameOutcome, kept⟩

theorem invalidate (faithful : FaithfulTo patternFault? inUse cache) (consumer : String) :
    FaithfulTo patternFault? (Function.update inUse consumer none) (cache.invalidate consumer) := by
  intro entry member
  obtain ⟨member, different⟩ := List.mem_filter.mp member
  rw [Function.update_of_ne (of_decide_eq_true different)]
  exact faithful entry member

/-- A steady action keeps a cache faithful to the options in use. -/
theorem apply (faithful : FaithfulTo patternFault? inUse cache) (moment : Moment Reading)
    {action : Action} (steady : action.IsSteady inUse) :
    FaithfulTo patternFault? (action.inUseAfter inUse) (action.apply patternFault? cache moment) := by
  cases action with
  | read consumer options text =>
    obtain ⟨-, kept⟩ := (faithful.use steady).read moment (Function.update_self _ _ _) text
    exact kept
  | lookup consumer text => exact faithful.lookup _ _
  | insert key outcome => exact False.elim steady
  | invalidate consumer => exact faithful.invalidate consumer
  | clear => exact faithfulTo_empty patternFault? _

/-- So does a history of steady actions, and what follows it is steady too. -/
theorem foldl {before later : List Event} (faithful : FaithfulTo patternFault? inUse cache)
    (steady : SteadyFrom inUse (before ++ later)) :
    FaithfulTo patternFault? (before.foldl Event.inUseAfter inUse)
        (before.foldl (Event.apply patternFault?) cache)
      ∧ SteadyFrom (before.foldl Event.inUseAfter inUse) later := by
  induction before generalizing inUse cache with
  | nil => exact ⟨faithful, steady⟩
  | cons event others ih =>
    obtain ⟨first, rest⟩ := steady
    exact ih (faithful.apply event.moment first) rest

end FaithfulTo

end

theorem faithfulTo_reached (patternFault? : String → Option String) {before later : List Event}
    (capacity : Nat) (steady : Steady (before ++ later)) :
    FaithfulTo patternFault? (optionsInUse before) (reached patternFault? capacity before)
      ∧ SteadyFrom (optionsInUse before) later :=
  (faithfulTo_empty patternFault? capacity).foldl steady

/-- In a steady history every reading through the cache gives what a reading without it gives, and
every outcome that is looked up is the reading with the options that its consumer has in use. -/
theorem answers_of_steady (patternFault? : String → Option String) (capacity : Nat)
    {history : List Event} (steady : Steady history) :
    (∀ before moment consumer options text later,
      history = before ++ ⟨moment, .read consumer options text⟩ :: later →
      ((reached patternFault? capacity before).read patternFault? moment consumer options text).1
        = Document.readWith patternFault? options text)
    ∧ ∀ before moment consumer text later outcome,
      history = before ++ ⟨moment, .lookup consumer text⟩ :: later →
      ((reached patternFault? capacity before).lookup moment.now ⟨consumer, text⟩).1 = some outcome →
      ∃ options, optionsInUse before consumer = some options
        ∧ outcome = Document.readWith patternFault? options text := by
  constructor
  · intro before moment consumer options text later split
    rw [split] at steady
    obtain ⟨faithful, steadyRead, -⟩ := faithfulTo_reached patternFault? capacity steady
    obtain ⟨answer, -⟩ := (faithful.use steadyRead).read moment (Function.update_self _ _ _) text
    exact answer
  · intro before moment consumer text later outcome split found
    rw [split] at steady
    obtain ⟨faithful, -⟩ := faithfulTo_reached patternFault? capacity steady
    exact faithful.outcome_of_lookup found

/-- A consumer reads a text, changes its options after an invalidation and reads again, while another
consumer takes its place in between. The clock reads the same all the time. -/
def changingHistory : List Event :=
  [.read "left" .permissive "Box \x7b\x7d", .read "right" .default "Box \x7b\x7d",
    .read "left" .permissive "Box \x7b\x7d", .invalidate "left", .read "left" .default "Box \x7b\x7d",
    .lookup "left" "Box \x7b\x7d"].map (Event.mk (.at 0))

theorem answers_of_changingHistory :
    Steady changingHistory
      ∧ ((reached (fun _ => none) 1 (changingHistory.take 2)).read (fun _ => none) (.at 0) "left"
          .permissive "Box \x7b\x7d").1
        = Document.readWith (fun _ => none) .permissive "Box \x7b\x7d"
      ∧ ((reached (fun _ => none) 1 (changingHistory.take 4)).read (fun _ => none) (.at 0) "left"
          .default "Box \x7b\x7d").1
        = Document.readWith (fun _ => none) .default "Box \x7b\x7d"
      ∧ ((reached (fun _ => none) 1 (changingHistory.take 5)).lookup 0 ⟨"left", "Box \x7b\x7d"⟩).1
        = some (Document.readWith (fun _ => none) .default "Box \x7b\x7d") := by
  have steady : Steady changingHistory := by decide
  obtain ⟨reads, looksUp⟩ := answers_of_steady (fun _ => none) 1 steady
  have isFound : ((reached (fun _ => none) 1 (changingHistory.take 5)).lookup 0
      ⟨"left", "Box \x7b\x7d"⟩).1.isSome = true := by
    decide +kernel
  obtain ⟨outcome, found⟩ := Option.isSome_iff_exists.mp isFound
  obtain ⟨options, used, same⟩ := looksUp _ (.at 0) _ _ [] outcome rfl found
  have inUse : optionsInUse (changingHistory.take 5) "left" = some .default := by decide
  rw [inUse, Option.some.injEq] at used
  rw [found, same, ← used]
  exact ⟨steady, reads _ _ _ _ _ _ rfl, reads _ _ _ _ _ _ rfl, rfl⟩

end Cache

end ApiDef
