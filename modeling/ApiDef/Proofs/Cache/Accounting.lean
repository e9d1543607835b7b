import ApiDef.Proofs.Cache.Faithful
import Mathlib.Algebra.Ring.Nat
import Mathlib.Data.List.DropRight
import Mathlib.Data.List.Nodup
set_option autoImplicit false

/-!
# The accounts of a cache

A cache keeps its size and its counts beside its entries. After every history they agree with what has
happened since the last time everything was dropped: each lookup was a hit or a miss, and each key that
was put in anew is still there, has been evicted or has been invalidated.
-/

namespace ApiDef.Cache

/-!
## Single actions
-/

section

variable {α : Type} {cache : Cache α} {now : Nat} {moment : Moment α} {key : Key}

def keys (cache : Cache α) : List Key :=
  cache.entries.map Entry.key

/-- No key has two entries, there is room for the entries, and the size that is reported is theirs. -/
structure Sound (cache : Cache α) : Prop where
  distinct : cache.keys.Nodup
  fits : cache.entries.length ≤ cache.capacity
  recorded : cache.size = cache.entries.length

theorem sound_empty (capacity : Nat) : (empty capacity : Cache α).Sound where
  distinct := List.nodup_nil
  fits := Nat.zero_le capacity
  recorded := rfl

theorem find?_eq_none_iff : cache.find? key = none ↔ key ∉ cache.keys := by
  simp [find?, keys, List.find?_eq_none]

theorem lookup_eq_none_iff : (cache.lookup now key).1 = none ↔ key ∉ cache.keys := by
  rw [← find?_eq_none_iff, lookup]
  cases cache.find? key with
  | none => simp
  | some entry => simp

theorem map_key_without (entries : List (Entry α)) (key : Key) :
    (without entries key).map Entry.key = (entries.map Entry.key).filter (· ≠ key) := by
  rw [List.filter_map]
  rfl

theorem not_mem_map_key_without (entries : List (Entry α)) (key : Key) :
    key ∉ (without entries key).map Entry.key := by
  simp [map_key_without]

theorem without_of_not_mem {entries : List (Entry α)} (absent : key ∉ entries.map Entry.key) :
    without entries key = entries := by
  apply List.filter_eq_self.mpr
  intro entry member
  apply decide_eq_true
  rintro rfl
  exact absent (List.mem_map_of_mem member)

theorem length_without_of_mem {entries : List (Entry α)} (distinct : (entries.map Entry.key).Nodup)
    (present : key ∈ entries.map Entry.key) : (without entries key).length + 1 = entries.length := by
  have erased : (without entries key).map Entry.key = (entries.map Entry.key).erase key := by
    rw [map_key_without, distinct.erase_eq_filter]
    exact List.filter_congr fun other _ => by simp [bne, beq_eq_decide]
  calc (without entries key).length + 1
      = ((without entries key).map Entry.key).length + 1 := by rw [List.length_map]
    _ = (entries.map Entry.key).length := by rw [erased, List.length_erase_add_one present]
    _ = entries.length := List.length_map _

theorem nodup_without {entries : List (Entry α)} (distinct : (entries.map Entry.key).Nodup)
    (key : Key) : ((without entries key).map Entry.key).Nodup := by
  rw [map_key_without]
  exact distinct.filter _

/-- An entry goes behind the others, in the place of an earlier one with its key. -/
theorem nodup_replace {entries : List (Entry α)} (distinct : (entries.map Entry.key).Nodup)
    {entry : Entry α} (same : entry.key = key) :
    ((without entries key ++ [entry]).map Entry.key).Nodup := by
  rw [List.map_append, List.map_singleton, same, List.nodup_append_comm, List.singleton_append]
  exact (nodup_without distinct key).cons (not_mem_map_key_without entries key)

@[simp] theorem capacity_lookup (now : Nat) (key : Key) :
    (cache.lookup now key).2.capacity = cache.capacity := by
  unfold lookup
  cases cache.find? key with
  | none => rfl
  | some entry => rfl

theorem length_lookup (sound : cache.Sound) (now : Nat) (key : Key) :
    (cache.lookup now key).2.entries.length = cache.entries.length := by
  cases found : cache.find? key with
  | none => simp [lookup, found]
  | some entry =>
    obtain ⟨member, same⟩ := mem_and_key_of_find? found
    have present : key ∈ cache.keys := same ▸ List.mem_map_of_mem member
    have shorter := length_without_of_mem sound.distinct present
    simpa [lookup, found] using shorter

theorem Sound.lookup (sound : cache.Sound) (now : Nat) (key : Key) :
    (cache.lookup now key).2.Sound where
  distinct := by
    cases found : cache.find? key with
    | none => simpa [Cache.lookup, found, keys] using sound.distinct
    | some entry =>
      obtain ⟨-, same⟩ := mem_and_key_of_find? found
      simp only [Cache.lookup, found, keys]
      exact nodup_replace sound.distinct same
  fits := by
    rw [length_lookup sound, capacity_lookup]
    exact sound.fits
  recorded := by
    rw [length_lookup sound, ← sound.recorded]
    unfold Cache.lookup
    cases cache.find? key with
    | none => rfl
    | some entry => rfl

theorem mem_of_leastUsed? {entries : List (Entry α)} {victim : Entry α}
    (found : leastUsed? entries = some victim) : victim ∈ entries := by
  induction entries generalizing victim with
  | nil => cases found
  | cons entry others ih =>
    simp only [leastUsed?] at found
    cases least : leastUsed? others with
    | none =>
      rw [least, Option.some.injEq] at found
      exact found ▸ List.mem_cons_self
    | some other =>
      simp only [least] at found
      split at found
      · exact Option.some.inj found ▸ List.mem_cons_of_mem _ (ih least)
      · exact Option.some.inj found ▸ List.mem_cons_self

theorem exists_leastUsed? {entries : List (Entry α)} (nonempty : entries ≠ []) :
    ∃ victim, leastUsed? entries = some victim := by
  cases entries with
  | nil => exact absurd rfl nonempty
  | cons entry others =>
    simp only [leastUsed?]
    cases leastUsed? others with
    | none => exact ⟨entry, rfl⟩
    | some other => exact ⟨_, (apply_ite some _ _ _).symm⟩

/-- The order in which a map goes through its entries neither adds one nor leaves one out. -/
theorem mem_order (moment : Moment α) {entries : List (Entry α)} {entry : Entry α} :
    entry ∈ moment.order entries ↔ entry ∈ entries :=
  (moment.perm entries).mem_iff

theorem order_ne_nil (moment : Moment α) {entries : List (Entry α)} (nonempty : entries ≠ []) :
    moment.order entries ≠ [] :=
  fun none => nonempty (List.nil_perm.mp (none ▸ moment.perm entries))

/-- Evicting takes one entry away and counts it. -/
theorem exists_evict (nonempty : cache.entries ≠ []) (moment : Moment α) :
    ∃ victim ∈ cache.keys, cache.evict moment = { cache with
      entries := without cache.entries victim
      evictions := cache.evictions + 1 } := by
  obtain ⟨victim, found⟩ := exists_leastUsed? (order_ne_nil moment nonempty)
  refine ⟨victim.key, List.mem_map_of_mem ((mem_order moment).mp (mem_of_leastUsed? found)), ?_⟩
  simp only [evict, found]

/-- The keys that a cache answers for: those that it holds and those that it has evicted. -/
def accounted (cache : Cache α) : Nat :=
  cache.entries.length + cache.evictions

/-- A cache with room for a key: without an earlier entry of the key it is not full. -/
structure RoomFor (key : Key) (cache room : Cache α) : Prop where
  distinct : room.keys.Nodup
  fits : (without room.entries key).length < cache.capacity
  accounted : (without room.entries key).length + 1 + room.evictions
    = cache.accounted + if key ∈ cache.keys then 0 else 1
  capacity : room.capacity = cache.capacity
  hits : room.hits = cache.hits
  misses : room.misses = cache.misses

theorem roomFor_of_mem (sound : cache.Sound) (present : key ∈ cache.keys) :
    RoomFor key cache cache := by
  have shorter := length_without_of_mem sound.distinct present
  have fits := sound.fits
  exact {
    distinct := sound.distinct
    fits := by omega
    accounted := by rw [shorter, if_pos present, accounted, Nat.add_zero]
    capacity := rfl
    hits := rfl
    misses := rfl }

theorem roomFor_of_lt (sound : cache.Sound) (absent : key ∉ cache.keys)
    (notFull : cache.entries.length < cache.capacity) : RoomFor key cache cache := by
  have whole : without cache.entries key = cache.entries := without_of_not_mem absent
  exact {
    distinct := sound.distinct
    fits := by rwa [whole]
    accounted := by
      rw [whole, if_neg absent, accounted]
      omega
    capacity := rfl
    hits := rfl
    misses := rfl }

theorem roomFor_evict (sound : cache.Sound) (absent : key ∉ cache.keys)
    (nonempty : cache.entries ≠ []) (moment : Moment α) :
    RoomFor key cache (cache.evict moment) := by
  obtain ⟨victim, member, evicted⟩ := exists_evict nonempty moment
  have shorter := length_without_of_mem sound.distinct member
  have fits := sound.fits
  have stillAbsent : key ∉ (without cache.entries victim).map Entry.key := by
    rw [map_key_without]
    exact fun member => absent (List.mem_of_mem_filter member)
  have whole := without_of_not_mem stillAbsent
  rw [evicted]
  exact {
    distinct := nodup_without sound.distinct victim
    fits := by
      rw [whole]
      omega
    accounted := by
      simp only [whole, if_neg absent, accounted]
      omega
    capacity := rfl
    hits := rfl
    misses := rfl }

theorem roomFor_makeRoom (sound : cache.Sound) (positive : cache.capacity ≠ 0) (moment : Moment α)
    (key : Key) : RoomFor key cache (cache.makeRoom moment key) := by
  by_cases present : key ∈ cache.keys
  · have found : cache.find? key ≠ none := fun none => find?_eq_none_iff.mp none present
    have kept : cache.makeRoom moment key = cache := by simp [makeRoom, found]
    rw [kept]
    exact roomFor_of_mem sound present
  · by_cases full : cache.capacity ≤ cache.entries.length
    · have made : cache.makeRoom moment key = cache.evict moment := by
        simp [makeRoom, full, find?_eq_none_iff.mpr present]
      rw [made]
      refine roomFor_evict sound present ?_ moment
      rintro none
      rw [none, List.length_nil] at full
      exact positive (Nat.le_zero.mp full)
    · have kept : cache.makeRoom moment key = cache := by simp [makeRoom, full]
      rw [kept]
      exact roomFor_of_lt sound present (Nat.lt_of_not_le full)

/-- What putting an outcome in makes of a cache. A new key is one more to answer for, unless the cache
keeps nothing at all. -/
structure Takes (key : Key) (cache after : Cache α) : Prop where
  sound : after.Sound
  accounted : after.accounted
    = cache.accounted + if cache.capacity ≠ 0 ∧ key ∉ cache.keys then 1 else 0
  capacity : after.capacity = cache.capacity
  hits : after.hits = cache.hits
  misses : after.misses = cache.misses

theorem Sound.takes_insert (sound : cache.Sound) (moment : Moment α) (key : Key) (outcome : α) :
    Takes key cache (cache.insert moment key outcome) := by
  unfold insert
  split
  next none =>
    have accounted : cache.accounted
        = cache.accounted + if cache.capacity ≠ 0 ∧ key ∉ cache.keys then 1 else 0 := by
      rw [if_neg fun positive => positive.1 none, Nat.add_zero]
    exact ⟨sound, accounted, rfl, rfl, rfl⟩
  next positive =>
    have room := roomFor_makeRoom sound positive moment key
    have fits := room.fits
    have counted := room.accounted
    refine ⟨⟨nodup_replace room.distinct rfl, ?_, rfl⟩, ?_, room.capacity, room.hits, room.misses⟩
    · have capacity := room.capacity
      simp only [List.length_append, List.length_singleton]
      omega
    · simp only [accounted, List.length_append, List.length_singleton]
      by_cases present : key ∈ cache.keys
      · simpa [present, accounted] using counted
      · simpa [present, positive, accounted] using counted

theorem length_invalidate (consumer : String) :
    (cache.invalidate consumer).entries.length
      + cache.entries.countP (fun entry => entry.key.consumer = consumer) = cache.entries.length := by
  have parts := List.length_eq_countP_add_countP (l := cache.entries)
    (fun entry => decide (entry.key.consumer = consumer))
  simp only [decide_eq_true_eq] at parts
  rw [parts, Nat.add_comm, invalidate, ← List.countP_eq_length_filter]

theorem Sound.invalidate (sound : cache.Sound) (consumer : String) :
    (cache.invalidate consumer).Sound where
  distinct := sound.distinct.sublist (List.filter_sublist.map Entry.key)
  fits := Nat.le_trans (List.length_filter_le _ _) sound.fits
  recorded := rfl

end

/-!
## Histories
-/

/-- An event, and the cache that it has happened to. -/
structure Step where
  before : Cache Reading
  event : Event

namespace Step

def isClear (step : Step) : Bool :=
  match step.event.action with
  | .clear => true
  | .read _ _ _ | .lookup _ _ | .insert _ _ | .invalidate _ => false

/-- What the lookup of a step has come to, if there was one; a reading looks up first. -/
def answer? (step : Step) : Option (Option Reading) :=
  match step.event.action with
  | .read consumer _ text | .lookup consumer text =>
    some (step.before.lookup step.event.moment.now ⟨consumer, text⟩).1
  | .insert _ _ | .invalidate _ | .clear => none

def isHit (step : Step) : Bool :=
  step.answer?.any Option.isSome

def isMiss (step : Step) : Bool :=
  step.answer?.any Option.isNone

/-- The key that a step puts an outcome under; a reading does so when it has found none. -/
def inserted? (step : Step) : Option Key :=
  match step.event.action with
  | .read consumer _ text => if step.isMiss then some ⟨consumer, text⟩ else none
  | .insert key _ => some key
  | .lookup _ _ | .invalidate _ | .clear => none

/-- Whether a key that was absent has been put in. A cache without capacity takes none. -/
def isAddition (step : Step) : Bool :=
  step.inserted?.any fun key => step.before.capacity ≠ 0 && !step.before.keys.contains key

/-- How many entries an invalidation has dropped. -/
def dropped (step : Step) : Nat :=
  match step.event.action with
  | .invalidate consumer =>
    step.before.entries.countP fun entry => entry.key.consumer = consumer
  | .read _ _ _ | .lookup _ _ | .insert _ _ | .clear => 0

end Step

section

variable (patternFault? : String → Option String)

def stepsFrom (cache : Cache Reading) : List Event → List Step
  | [] => []
  | event :: later => ⟨cache, event⟩ :: stepsFrom (event.apply patternFault? cache) later

/-- The steps of a history on a new cache. -/
def steps (capacity : Nat) (history : List Event) : List Step :=
  stepsFrom patternFault? (empty capacity) history

theorem stepsFrom_concat (cache : Cache Reading) (history : List Event) (event : Event) :
    stepsFrom patternFault? cache (history ++ [event])
      = stepsFrom patternFault? cache history
        ++ [⟨history.foldl (Event.apply patternFault?) cache, event⟩] := by
  induction history generalizing cache with
  | nil => rfl
  | cons first later ih => simp [stepsFrom, ih]

theorem steps_concat (capacity : Nat) (history : List Event) (event : Event) :
    steps patternFault? capacity (history ++ [event])
      = steps patternFault? capacity history
        ++ [⟨reached patternFault? capacity history, event⟩] :=
  stepsFrom_concat patternFault? _ _ _

theorem reached_concat (capacity : Nat) (history : List Event) (event : Event) :
    reached patternFault? capacity (history ++ [event])
      = event.apply patternFault? (reached patternFault? capacity history) := by
  simp [reached]

end

/-- The steps behind the last one that cleared the cache. -/
def sinceClear (steps : List Step) : List Step :=
  steps.rtakeWhile fun step => !step.isClear

theorem sinceClear_concat (earlier : List Step) (step : Step) :
    sinceClear (earlier ++ [step]) = if step.isClear then [] else sinceClear earlier ++ [step] := by
  rw [sinceClear, List.rtakeWhile_concat, sinceClear]
  cases step.isClear with
  | true => rfl
  | false => rfl

/-- The counts of a cache are those of the given steps. -/
structure Accounts (steps : List Step) (cache : Cache Reading) : Prop where
  hits : cache.hits = steps.countP Step.isHit
  misses : cache.misses = steps.countP Step.isMiss
  additions : steps.countP Step.isAddition = cache.accounted + (steps.map Step.dropped).sum

theorem accounts_empty (capacity : Nat) : Accounts [] (empty capacity) where
  hits := rfl
  misses := rfl
  additions := rfl

variable {taken : List Step} {cache after : Cache Reading}

/-- A step changes the accounts by what it has counted itself. -/
theorem Accounts.concat (accounts : Accounts taken cache) {step : Step}
    (hits : after.hits = cache.hits + if step.isHit then 1 else 0)
    (misses : after.misses = cache.misses + if step.isMiss then 1 else 0)
    (kept : cache.accounted + (if step.isAddition then 1 else 0) = after.accounted + step.dropped) :
    Accounts (taken ++ [step]) after where
  hits := by
    rw [hits, accounts.hits, List.countP_append, List.countP_singleton]
  misses := by
    rw [misses, accounts.misses, List.countP_append, List.countP_singleton]
  additions := by
    have before := accounts.additions
    rw [List.countP_append, List.countP_singleton, List.map_append, List.sum_append,
      List.map_singleton, List.sum_singleton]
    omega

section

variable {now : Nat} {key : Key}

theorem counts_lookup (cache : Cache Reading) (now : Nat) (key : Key) :
    (cache.lookup now key).2.hits
        = cache.hits + (if (cache.lookup now key).1.isSome then 1 else 0)
      ∧ (cache.lookup now key).2.misses
        = cache.misses + (if (cache.lookup now key).1.isNone then 1 else 0)
      ∧ (cache.lookup now key).2.evictions = cache.evictions := by
  unfold lookup
  cases cache.find? key with
  | none => exact ⟨rfl, rfl, rfl⟩
  | some entry => exact ⟨rfl, rfl, rfl⟩

theorem accounted_lookup (sound : cache.Sound) (now : Nat) (key : Key) :
    (cache.lookup now key).2.accounted = cache.accounted := by
  obtain ⟨-, -, evictions⟩ := counts_lookup cache now key
  rw [accounted, accounted, length_lookup sound, evictions]

theorem keys_lookup_of_none (missing : (cache.lookup now key).1 = none) :
    (cache.lookup now key).2.keys = cache.keys := by
  unfold lookup at missing ⊢
  cases found : cache.find? key with
  | none => rfl
  | some entry =>
    rw [found] at missing
    cases missing

end

variable {patternFault? : String → Option String} {moment : Moment Reading}

/-- A reading is a lookup, and after a miss the outcome is put in. -/
theorem read_eq (patternFault? : String → Option String) (cache : Cache Reading)
    (moment : Moment Reading) (consumer : String) (options : Options) (text : String) :
    (cache.read patternFault? moment consumer options text).2
      = if (cache.lookup moment.now ⟨consumer, text⟩).1.isNone then
          (cache.lookup moment.now ⟨consumer, text⟩).2.insert moment ⟨consumer, text⟩
            (Document.readWith patternFault? options text)
        else (cache.lookup moment.now ⟨consumer, text⟩).2 := by
  unfold Cache.read fetch
  generalize cache.lookup moment.now ⟨consumer, text⟩ = looked
  obtain ⟨answer, after⟩ := looked
  cases answer with
  | none => rfl
  | some outcome => rfl

theorem Sound.apply (sound : cache.Sound) (patternFault? : String → Option String) (event : Event) :
    (event.apply patternFault? cache).Sound
      ∧ (event.apply patternFault? cache).capacity = cache.capacity := by
  obtain ⟨moment, action⟩ := event
  cases action with
  | read consumer options text =>
    have looked := sound.lookup moment.now ⟨consumer, text⟩
    rw [Event.apply, Action.apply, read_eq]
    split
    · have takes := looked.takes_insert moment ⟨consumer, text⟩
        (Document.readWith patternFault? options text)
      exact ⟨takes.sound, takes.capacity.trans (capacity_lookup _ _)⟩
    · exact ⟨looked, capacity_lookup _ _⟩
  | lookup consumer text => exact ⟨sound.lookup _ _, capacity_lookup _ _⟩
  | insert key outcome =>
    have takes := sound.takes_insert moment key outcome
    exact ⟨takes.sound, takes.capacity⟩
  | invalidate consumer => exact ⟨sound.invalidate consumer, rfl⟩
  | clear => exact ⟨sound_empty _, rfl⟩

theorem Accounts.lookup (accounts : Accounts taken cache) (sound : cache.Sound)
    (moment : Moment Reading) (consumer : String) (text : String) :
    Accounts (taken ++ [⟨cache, ⟨moment, .lookup consumer text⟩⟩])
      (cache.lookup moment.now ⟨consumer, text⟩).2 := by
  obtain ⟨hits, misses, -⟩ := counts_lookup cache moment.now ⟨consumer, text⟩
  refine accounts.concat hits misses ?_
  rw [accounted_lookup sound]
  rfl

theorem Accounts.read (accounts : Accounts taken cache) (sound : cache.Sound)
    (moment : Moment Reading) (consumer : String) (options : Options) (text : String) :
    Accounts (taken ++ [⟨cache, ⟨moment, .read consumer options text⟩⟩])
      (cache.read patternFault? moment consumer options text).2 := by
  obtain ⟨hits, misses, -⟩ := counts_lookup cache moment.now ⟨consumer, text⟩
  have looked := sound.lookup moment.now ⟨consumer, text⟩
  have accounted := accounted_lookup sound moment.now ⟨consumer, text⟩
  rw [read_eq]
  cases answer : (cache.lookup moment.now ⟨consumer, text⟩).1 with
  | none =>
    -- What was looked up in vain is absent, so putting it in is an addition.
    have absent : (⟨consumer, text⟩ : Key) ∉ cache.keys := lookup_eq_none_iff.mp answer
    have takes := looked.takes_insert moment ⟨consumer, text⟩
      (Document.readWith patternFault? options text)
    have counted := takes.accounted
    rw [capacity_lookup, keys_lookup_of_none answer, accounted] at counted
    rw [answer] at hits misses
    apply accounts.concat
    · simpa [Step.isHit, Step.answer?, answer, takes.hits] using hits
    · simpa [Step.isMiss, Step.answer?, answer, takes.misses] using misses
    · simp [Step.isAddition, Step.inserted?, Step.isMiss, Step.answer?, Step.dropped, answer, counted,
        absent]
  | some outcome =>
    rw [answer] at hits misses
    apply accounts.concat
    · simpa [Step.isHit, Step.answer?, answer] using hits
    · simpa [Step.isMiss, Step.answer?, answer] using misses
    · simp [Step.isAddition, Step.inserted?, Step.isMiss, Step.answer?, Step.dropped, answer, accounted]

theorem Accounts.insert (accounts : Accounts taken cache) (sound : cache.Sound)
    (moment : Moment Reading) (key : Key) (outcome : Reading) :
    Accounts (taken ++ [⟨cache, ⟨moment, .insert key outcome⟩⟩])
      (cache.insert moment key outcome) := by
  have takes := sound.takes_insert moment key outcome
  apply accounts.concat
  · simp [Step.isHit, Step.answer?, takes.hits]
  · simp [Step.isMiss, Step.answer?, takes.misses]
  · simp [Step.isAddition, Step.inserted?, Step.dropped, takes.accounted]

theorem Accounts.invalidate (accounts : Accounts taken cache) (moment : Moment Reading)
    (consumer : String) :
    Accounts (taken ++ [⟨cache, ⟨moment, .invalidate consumer⟩⟩]) (cache.invalidate consumer) := by
  have parts : (cache.invalidate consumer).entries.length
      + cache.entries.countP (fun entry => entry.key.consumer = consumer) = cache.entries.length :=
    length_invalidate consumer
  apply accounts.concat
  · rfl
  · rfl
  · simp only [Step.isAddition, Step.inserted?, Step.dropped, accounted, Option.any_none,
      Bool.false_eq_true, if_false, ← parts]
    change _ = (cache.invalidate consumer).entries.length + cache.evictions + _
    omega

/-- An event keeps the accounts right; clearing starts them anew. -/
theorem Accounts.apply {earlier : List Step} (accounts : Accounts (sinceClear earlier) cache)
    (sound : cache.Sound) (event : Event) :
    Accounts (sinceClear (earlier ++ [⟨cache, event⟩])) (event.apply patternFault? cache) := by
  rw [sinceClear_concat]
  obtain ⟨moment, action⟩ := event
  cases action with
  | read consumer options text => exact accounts.read sound moment consumer options text
  | lookup consumer text => exact accounts.lookup sound moment consumer text
  | insert key outcome => exact accounts.insert sound moment key outcome
  | invalidate consumer => exact accounts.invalidate moment consumer
  | clear => exact accounts_empty _

theorem sound_reached (patternFault? : String → Option String) (capacity : Nat)
    (history : List Event) :
    (reached patternFault? capacity history).Sound
      ∧ (reached patternFault? capacity history).capacity = capacity := by
  induction history using List.reverseRecOn with
  | nil => exact ⟨sound_empty capacity, rfl⟩
  | append_singleton earlier event ih =>
    obtain ⟨sound, same⟩ := ih
    obtain ⟨kept, capacityKept⟩ := sound.apply patternFault? event
    rw [reached_concat]
    exact ⟨kept, capacityKept.trans same⟩

theorem accounts_reached (patternFault? : String → Option String) (capacity : Nat)
    (history : List Event) :
    Accounts (sinceClear (steps patternFault? capacity history))
      (reached patternFault? capacity history) := by
  induction history using List.reverseRecOn with
  | nil => exact accounts_empty capacity
  | append_singleton earlier event ih =>
    obtain ⟨sound, -⟩ := sound_reached patternFault? capacity earlier
    rw [reached_concat, steps_concat]
    exact ih.apply sound event

/-- Whatever has happened to a cache, at whatever readings of the clock: no key has two entries, there
are at most as many entries as there may be, and what is reported agrees with the entries and with the
steps since the cache was last cleared. Each key put in since then that was absent is still there,
evicted or invalidated. -/
theorem statistics_reached (patternFault? : String → Option String) (capacity : Nat)
    (history : List Event) :
    ((reached patternFault? capacity history).entries.map Entry.key).Nodup
    ∧ (reached patternFault? capacity history).entries.length ≤ capacity
    ∧ (reached patternFault? capacity history).size
      = (reached patternFault? capacity history).entries.length
    ∧ (reached patternFault? capacity history).capacity = capacity
    ∧ (reached patternFault? capacity history).hits
      = (sinceClear (steps patternFault? capacity history)).countP Step.isHit
    ∧ (reached patternFault? capacity history).misses
      = (sinceClear (steps patternFault? capacity history)).countP Step.isMiss
    ∧ (sinceClear (steps patternFault? capacity history)).countP Step.isAddition
      = (reached patternFault? capacity history).entries.length
        + (reached patternFault? capacity history).evictions
        + ((sinceClear (steps patternFault? capacity history)).map Step.dropped).sum := by
  obtain ⟨⟨distinct, fits, recorded⟩, sameCapacity⟩ := sound_reached patternFault? capacity history
  obtain ⟨hits, misses, additions⟩ := accounts_reached patternFault? capacity history
  exact ⟨distinct, fits.trans_eq sameCapacity, recorded, sameCapacity, hits, misses, additions⟩

end ApiDef.Cache
