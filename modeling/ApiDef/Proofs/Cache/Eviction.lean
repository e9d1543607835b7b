import ApiDef.Proofs.Cache.Accounting
set_option autoImplicit false

/-!
# Which entry makes room

A cache keeps a count and a clock reading beside each entry. Both are those of its history: the uses of a
key are counted from the steps since the key was last put in, and its last use is the last step that put it
in or found it. So the entry that makes room is one with the fewest uses, and among several of those one
whose last use is longest ago. Where the clock goes forward from step to step, there is only one.
-/

namespace ApiDef.Cache

section

variable {α : Type} {cache : Cache α} {moment : Moment α} {key : Key}

/-!
## The victim
-/

/-- The entry that makes room for a key, if one has to. -/
def victim? (cache : Cache α) (moment : Moment α) (key : Key) : Option (Entry α) :=
  if cache.capacity ≤ cache.entries.length ∧ (cache.find? key).isNone then
    leastUsed? (moment.order cache.entries)
  else none

/-- What is left of the entries when one of them makes room. -/
def withoutVictim (entries : List (Entry α)) (victim? : Option (Entry α)) : List (Entry α) :=
  entries.filter fun entry => victim?.all fun victim => entry.key ≠ victim.key

theorem isSome_victim?_iff (positive : cache.capacity ≠ 0) :
    (cache.victim? moment key).isSome = true
      ↔ cache.capacity ≤ cache.entries.length ∧ key ∉ cache.keys := by
  rw [← find?_eq_none_iff, ← Option.isNone_iff_eq_none, victim?]
  split
  next full =>
    have nonempty : cache.entries ≠ [] := by
      intro none
      rw [none, List.length_nil] at full
      exact positive (Nat.le_zero.mp full.1)
    obtain ⟨victim, found⟩ := exists_leastUsed? (order_ne_nil moment nonempty)
    simp only [found, Option.isSome_some, full, and_self]
  next notFull => simp only [Option.isSome_none, notFull, Bool.false_eq_true]

theorem leastUsed?_of_victim? {victim : Entry α} (evicted : cache.victim? moment key = some victim) :
    leastUsed? (moment.order cache.entries) = some victim := by
  unfold victim? at evicted
  split at evicted
  · exact evicted
  · cases evicted

theorem makeRoom_victim? (positive : cache.capacity ≠ 0) (moment : Moment α) (key : Key) :
    (cache.makeRoom moment key).entries = withoutVictim cache.entries (cache.victim? moment key)
      ∧ (cache.makeRoom moment key).evictions
        = cache.evictions + (cache.victim? moment key).toList.length := by
  have needed : (cache.victim? moment key).isSome = true
      ↔ cache.capacity ≤ cache.entries.length ∧ key ∉ cache.keys := isSome_victim?_iff positive
  cases evicted : cache.victim? moment key with
  | none =>
    rw [evicted, ← find?_eq_none_iff, ← Option.isNone_iff_eq_none] at needed
    have kept : cache.makeRoom moment key = cache := if_neg (by simpa using needed)
    simp [kept, withoutVictim]
  | some victim =>
    have found := leastUsed?_of_victim? evicted
    rw [evicted, ← find?_eq_none_iff, ← Option.isNone_iff_eq_none] at needed
    have made : cache.makeRoom moment key = cache.evict moment := if_pos (needed.mp rfl)
    simp [made, evict, found, withoutVictim, without]

/-- What has not been used less than something that has not been used less than a third has not been
used less than the third. -/
theorem Entry.not_usedLess_trans {first second third : Entry α} (here : ¬first.UsedLess second)
    (there : ¬second.UsedLess third) : ¬first.UsedLess third := by
  simp only [Entry.UsedLess] at *
  omega

/-- No entry has been used less than the victim. -/
theorem not_usedLess_of_leastUsed? {entries : List (Entry α)} {victim other : Entry α}
    (found : leastUsed? entries = some victim) (member : other ∈ entries) : ¬other.UsedLess victim := by
  have irreflexive : ∀ entry : Entry α, ¬entry.UsedLess entry := by simp [Entry.UsedLess]
  induction entries generalizing victim other with
  | nil => cases found
  | cons entry others ih =>
    simp only [leastUsed?] at found
    cases least : leastUsed? others with
    | none =>
      have alone : others = [] := by
        by_contra nonempty
        obtain ⟨_, found⟩ := exists_leastUsed? nonempty
        rw [least] at found
        cases found
      subst alone
      rw [least, Option.some.injEq] at found
      rw [← found, List.mem_singleton.mp member]
      exact irreflexive entry
    | some rival =>
      simp only [least] at found
      split at found
      next less =>
        obtain rfl := Option.some.inj found
        rcases List.mem_cons.mp member with rfl | behind
        · simp only [Entry.UsedLess] at less ⊢
          omega
        · exact ih least behind
      next notLess =>
        -- The entry in front wins a draw with the rival, which wins against everything else.
        obtain rfl := Option.some.inj found
        rcases List.mem_cons.mp member with rfl | behind
        · exact irreflexive other
        · exact Entry.not_usedLess_trans (ih least behind) notLess

theorem insert_victim? (positive : cache.capacity ≠ 0) (moment : Moment α) (key : Key) (outcome : α) :
    (cache.insert moment key outcome).entries
      = without (withoutVictim cache.entries (cache.victim? moment key)) key
        ++ [⟨key, outcome, 1, moment.now⟩]
    ∧ (cache.insert moment key outcome).evictions
      = cache.evictions + (cache.victim? moment key).toList.length := by
  obtain ⟨entries, evictions⟩ := makeRoom_victim? positive moment key
  rw [← entries, ← evictions, insert, if_neg positive]
  exact ⟨rfl, rfl⟩

end

/-!
## Uses in a history
-/

namespace Step

/-- What the clock read. -/
def now (step : Step) : Nat := step.event.moment.now

/-- The key whose outcome a step has found. -/
def found? (step : Step) : Option Key :=
  match step.event.action with
  | .read consumer _ text | .lookup consumer text =>
    if step.isHit then some ⟨consumer, text⟩ else none
  | .insert _ _ | .invalidate _ | .clear => none

/-- Whether a step uses a key: it puts an outcome under the key or finds one there. -/
def isUse (step : Step) (key : Key) : Bool :=
  step.inserted? = some key || step.found? = some key

end Step

/-- How often a key has been used: its last insertion counts, and so does every time it was found since. -/
def usesIn (steps : List Step) (key : Key) : Nat :=
  1 + (steps.rtakeWhile fun step => step.inserted? ≠ some key).countP fun step => step.found? = some key

/-- What the clock read at the last step that used a key, if one did. -/
def lastUseIn (steps : List Step) (key : Key) : Option Nat :=
  (steps.reverse.find? fun step => step.isUse key).map Step.now

section

variable {taken : List Step} {step : Step} {key : Key}

theorem usesIn_concat (taken : List Step) (step : Step) (key : Key) :
    usesIn (taken ++ [step]) key = if step.inserted? = some key then 1
      else usesIn taken key + if step.found? = some key then 1 else 0 := by
  rw [usesIn, List.rtakeWhile_concat]
  by_cases inserts : step.inserted? = some key
  · simp [inserts]
  · simp [inserts, usesIn, List.countP_append, List.countP_singleton, Nat.add_assoc]

theorem lastUseIn_concat (taken : List Step) (step : Step) (key : Key) :
    lastUseIn (taken ++ [step]) key
      = if step.isUse key then some step.now else lastUseIn taken key := by
  rw [lastUseIn, List.reverse_concat, List.find?_cons]
  cases step.isUse key with
  | true => rfl
  | false => rfl

/-- The clock has been read at a step that used the key. -/
theorem exists_of_lastUseIn {now : Nat} (used : lastUseIn taken key = some now) :
    ∃ step ∈ taken, step.isUse key = true ∧ step.now = now := by
  obtain ⟨step, found, same⟩ := Option.map_eq_some_iff.mp used
  have uses := List.find?_some found
  exact ⟨step, List.mem_reverse.mp (List.mem_of_find?_eq_some found), uses, same⟩

theorem usesIn_of_not_isUse (unused : step.isUse key = false) :
    usesIn (taken ++ [step]) key = usesIn taken key := by
  obtain ⟨notInserted, notFound⟩ : step.inserted? ≠ some key ∧ step.found? ≠ some key := by
    simpa [Step.isUse] using unused
  rw [usesIn_concat, if_neg notInserted, if_neg notFound, Nat.add_zero]

theorem lastUseIn_of_not_isUse (unused : step.isUse key = false) :
    lastUseIn (taken ++ [step]) key = lastUseIn taken key := by
  rw [lastUseIn_concat, unused]
  exact if_neg Bool.false_ne_true

/-- A step that puts a key in has found no other one. -/
theorem eq_of_found?_of_inserted? {step : Step} {key found : Key} (finds : step.found? = some found)
    (inserts : step.inserted? = some key) : found = key := by
  obtain ⟨before, moment, action⟩ := step
  cases action with
  | read consumer options text =>
    unfold Step.found? at finds
    unfold Step.inserted? at inserts
    dsimp only at finds inserts
    split at finds
    · split at inserts
      · exact (Option.some.inj finds).symm.trans (Option.some.inj inserts)
      · cases inserts
    · cases finds
  | insert => cases finds
  | lookup => cases inserts
  | invalidate => cases finds
  | clear => cases finds

theorem isUse_of_inserted? (inserted : step.inserted? = some key) : step.isUse key = true := by
  simp [Step.isUse, inserted]

theorem isUse_of_found? (found : step.found? = some key) : step.isUse key = true := by
  simp [Step.isUse, found]

/-- A step uses one key at most. -/
theorem isUse_eq_false_of_ne (used : step.isUse key = true) {other : Key} (differs : other ≠ key) :
    step.isUse other = false := by
  rw [Step.isUse, Bool.or_eq_true, decide_eq_true_iff, decide_eq_true_iff] at used
  rw [Step.isUse, Bool.or_eq_false_iff, decide_eq_false_iff_not, decide_eq_false_iff_not]
  rcases used with inserted | found
  · constructor
    · exact fun same => differs (Option.some.inj (same.symm.trans inserted))
    · exact fun same => differs (eq_of_found?_of_inserted? same inserted)
  · constructor
    · exact fun same => differs (eq_of_found?_of_inserted? found same).symm
    · exact fun same => differs (Option.some.inj (same.symm.trans found))

end

/-- The entries carry the uses that a history has counted and the clock readings of their last use. -/
structure Remembers (taken : List Step) (entries : List (Entry Reading)) : Prop where
  uses : ∀ entry ∈ entries, entry.uses = usesIn taken entry.key
  lastUse : ∀ entry ∈ entries, lastUseIn taken entry.key = some entry.lastUse

variable {patternFault? : String → Option String} {taken : List Step} {cache : Cache Reading}
  {moment : Moment Reading} {entries kept : List (Entry Reading)} {step : Step}

theorem remembers_nil (taken : List Step) : Remembers taken [] where
  uses := List.forall_mem_nil _
  lastUse := List.forall_mem_nil _

/-- Entries that a step does not use stay as they are, also when others are dropped. -/
theorem Remembers.keep (remembers : Remembers taken entries) (sublist : kept.Sublist entries)
    (unused : ∀ entry ∈ kept, step.isUse entry.key = false) : Remembers (taken ++ [step]) kept where
  uses := by
    intro entry member
    rw [usesIn_of_not_isUse (unused entry member)]
    exact remembers.uses entry (sublist.subset member)
  lastUse := by
    intro entry member
    rw [lastUseIn_of_not_isUse (unused entry member)]
    exact remembers.lastUse entry (sublist.subset member)

/-- The entry of the key that a step uses takes the place of an earlier one. -/
theorem Remembers.use (remembers : Remembers taken entries) (sublist : kept.Sublist entries)
    {entry : Entry Reading} (others : ∀ other ∈ kept, other.key ≠ entry.key)
    (used : step.isUse entry.key = true) (counted : entry.uses = usesIn (taken ++ [step]) entry.key)
    (stamped : entry.lastUse = step.now) : Remembers (taken ++ [step]) (kept ++ [entry]) := by
  have unused : ∀ other ∈ kept, step.isUse other.key = false :=
    fun other member => isUse_eq_false_of_ne used (others other member)
  have keeps := remembers.keep sublist unused
  constructor
  · intro other member
    rcases List.mem_append.mp member with member | member
    · exact keeps.uses other member
    · obtain rfl := List.mem_singleton.mp member
      exact counted
  · intro other member
    rcases List.mem_append.mp member with member | member
    · exact keeps.lastUse other member
    · obtain rfl := List.mem_singleton.mp member
      rw [lastUseIn_concat, if_pos used, stamped]

theorem ne_of_mem_without {key : Key} {entry : Entry Reading} (member : entry ∈ without entries key) :
    entry.key ≠ key :=
  of_decide_eq_true (List.mem_filter.mp member).2

/-- A key that is put in has been used once; an earlier entry of it and the victim give way. -/
theorem Remembers.insert (remembers : Remembers taken cache.entries) (positive : cache.capacity ≠ 0)
    {key : Key} (outcome : Reading) (inserted : step.inserted? = some key) :
    Remembers (taken ++ [step]) (cache.insert step.event.moment key outcome).entries := by
  obtain ⟨entries, -⟩ := insert_victim? positive step.event.moment key outcome
  rw [entries]
  apply remembers.use
  · exact List.filter_sublist.trans List.filter_sublist
  · exact fun _ member => ne_of_mem_without member
  · exact isUse_of_inserted? inserted
  · rw [usesIn_concat, if_pos inserted]
  · rfl

/-- A key that is found has been used once more. -/
theorem Remembers.find (remembers : Remembers taken cache.entries) {key : Key} {entry : Entry Reading}
    (kept : cache.find? key = some entry) (notInserted : step.inserted? = none)
    (found : step.found? = some key) :
    Remembers (taken ++ [step]) (cache.lookup step.now key).2.entries := by
  obtain ⟨member, same⟩ := mem_and_key_of_find? kept
  have looked : (cache.lookup step.now key).2.entries
      = without cache.entries key
        ++ [{ entry with uses := entry.uses + 1, lastUse := step.now }] := by
    simp [lookup, kept]
  rw [looked]
  rw [← same] at found
  apply remembers.use List.filter_sublist
  · rw [← same]
    exact fun _ otherMember => ne_of_mem_without otherMember
  · exact isUse_of_found? found
  · rw [usesIn_concat, notInserted, if_neg (by simp), if_pos found, remembers.uses entry member]
  · rfl

theorem entries_lookup_of_none {now : Nat} {key : Key} (missing : (cache.lookup now key).1 = none) :
    (cache.lookup now key).2.entries = cache.entries := by
  have absent := find?_eq_none_iff.mpr (lookup_eq_none_iff.mp missing)
  simp [lookup, absent]

/-- A key whose outcome is found has an entry. -/
theorem find?_of_lookup {now : Nat} {key : Key} {outcome : Reading}
    (answer : (cache.lookup now key).1 = some outcome) : ∃ entry, cache.find? key = some entry := by
  unfold lookup at answer
  cases kept : cache.find? key with
  | none =>
    rw [kept] at answer
    cases answer
  | some entry => exact ⟨entry, rfl⟩

/-- An event keeps the counts and the clock readings those of the history. -/
theorem Remembers.apply (remembers : Remembers taken cache.entries) (positive : cache.capacity ≠ 0)
    (patternFault? : String → Option String) (event : Event) :
    Remembers (taken ++ [⟨cache, event⟩]) (event.apply patternFault? cache).entries := by
  obtain ⟨moment, action⟩ := event
  cases action with
  | read consumer options text =>
    rw [Event.apply, Action.apply, read_eq]
    cases answer : (cache.lookup moment.now ⟨consumer, text⟩).1 with
    | none =>
      have kept : Remembers taken (cache.lookup moment.now ⟨consumer, text⟩).2.entries := by
        rw [entries_lookup_of_none answer]
        exact remembers
      have inserted : (⟨cache, ⟨moment, .read consumer options text⟩⟩ : Step).inserted?
          = some ⟨consumer, text⟩ := by
        simp [Step.inserted?, Step.isMiss, Step.answer?, answer]
      exact kept.insert (by rwa [capacity_lookup]) _ inserted
    | some outcome =>
      obtain ⟨entry, kept⟩ := find?_of_lookup answer
      apply remembers.find kept
      · simp [Step.inserted?, Step.isMiss, Step.answer?, answer]
      · simp [Step.found?, Step.isHit, Step.answer?, answer]
  | lookup consumer text =>
    rw [Event.apply, Action.apply]
    cases answer : (cache.lookup moment.now ⟨consumer, text⟩).1 with
    | none =>
      rw [entries_lookup_of_none answer]
      apply remembers.keep (.refl _)
      intro entry _
      simp [Step.isUse, Step.inserted?, Step.found?, Step.isHit, Step.answer?, answer]
    | some outcome =>
      obtain ⟨entry, kept⟩ := find?_of_lookup answer
      apply remembers.find kept rfl
      simp [Step.found?, Step.isHit, Step.answer?, answer]
  | insert key outcome => exact remembers.insert positive outcome rfl
  | invalidate consumer =>
    apply remembers.keep List.filter_sublist
    intro entry _
    rfl
  | clear => exact remembers_nil _

theorem remembers_reached (patternFault? : String → Option String) {capacity : Nat}
    (positive : 1 ≤ capacity) (history : List Event) :
    Remembers (steps patternFault? capacity history)
      (reached patternFault? capacity history).entries := by
  induction history using List.reverseRecOn with
  | nil => exact remembers_nil _
  | append_singleton earlier event ih =>
    obtain ⟨-, sameCapacity⟩ := sound_reached patternFault? capacity earlier
    have room : (reached patternFault? capacity earlier).capacity ≠ 0 := by omega
    rw [reached_concat, steps_concat]
    exact ih.apply room patternFault? event

/-- A step that puts a key in changes the entries as putting an outcome under the key does. -/
theorem apply_of_inserted? (patternFault? : String → Option String) {event : Event} {key : Key}
    (inserted : (⟨cache, event⟩ : Step).inserted? = some key) :
    ∃ room : Cache Reading, ∃ outcome,
      event.apply patternFault? cache = room.insert event.moment key outcome
      ∧ room.entries = cache.entries ∧ room.evictions = cache.evictions
      ∧ room.capacity = cache.capacity := by
  obtain ⟨moment, action⟩ := event
  cases action with
  | read consumer options text =>
    cases answer : (cache.lookup moment.now ⟨consumer, text⟩).1 with
    | none =>
      obtain rfl : ⟨consumer, text⟩ = key := by
        simpa [Step.inserted?, Step.isMiss, Step.answer?, answer] using inserted
      obtain ⟨-, -, evictions⟩ := counts_lookup cache moment.now ⟨consumer, text⟩
      refine ⟨_, Document.readWith patternFault? options text, ?_, entries_lookup_of_none answer,
        evictions, capacity_lookup _ _⟩
      rw [Event.apply, Action.apply, read_eq, answer]
      rfl
    | some outcome => simp [Step.inserted?, Step.isMiss, Step.answer?, answer] at inserted
  | insert other outcome =>
    obtain rfl : other = key := Option.some.inj inserted
    exact ⟨cache, outcome, rfl, rfl, rfl, rfl⟩
  | lookup consumer text => cases inserted
  | invalidate consumer => cases inserted
  | clear => cases inserted

theorem victim?_congr {room : Cache Reading} (entries : room.entries = cache.entries)
    (capacity : room.capacity = cache.capacity) (moment : Moment Reading) (key : Key) :
    room.victim? moment key = cache.victim? moment key := by
  rw [victim?, victim?, find?, find?, entries, capacity]

/-!
## The clock
-/

/-- By the clock of a history one key has been used less than another: fewer times, or as often and
earlier for the last time. -/
def UsedLess (taken : List Step) (key other : Key) : Prop :=
  usesIn taken key < usesIn taken other
    ∨ usesIn taken key = usesIn taken other
      ∧ ∃ earlier later, lastUseIn taken key = some earlier ∧ lastUseIn taken other = some later
        ∧ earlier < later

theorem map_now_stepsFrom (patternFault? : String → Option String) (cache : Cache Reading)
    (history : List Event) :
    (stepsFrom patternFault? cache history).map Step.now
      = history.map fun event => event.moment.now := by
  induction history generalizing cache with
  | nil => rfl
  | cons event later ih =>
    rw [stepsFrom, List.map_cons, List.map_cons, ih]
    rfl

/-- Where the clock goes forward, two entries are never used at the same reading: one step uses one key. -/
theorem Remembers.lastUse_ne (remembers : Remembers taken entries)
    (ticks : (taken.map Step.now).Pairwise (· < ·)) {entry other : Entry Reading}
    (member : entry ∈ entries) (otherMember : other ∈ entries) (differs : entry.key ≠ other.key) :
    entry.lastUse ≠ other.lastUse := by
  intro same
  obtain ⟨step, taken, used, now⟩ := exists_of_lastUseIn (remembers.lastUse entry member)
  obtain ⟨otherStep, otherTaken, otherUsed, otherNow⟩ :=
    exists_of_lastUseIn (remembers.lastUse other otherMember)
  have distinct : (List.map Step.now _).Nodup := ticks.imp Nat.ne_of_lt
  have one : step = otherStep :=
    List.inj_on_of_nodup_map distinct taken otherTaken (now.trans (same.trans otherNow.symm))
  rw [one, isUse_eq_false_of_ne otherUsed differs] at used
  cases used

/-- The entry that makes room has been used less than every other one. -/
theorem Remembers.usedLess (remembers : Remembers taken entries)
    (ticks : (taken.map Step.now).Pairwise (· < ·)) {moment : Moment Reading}
    {victim other : Entry Reading} (found : leastUsed? (moment.order entries) = some victim)
    (member : other ∈ entries) (differs : other.key ≠ victim.key) :
    UsedLess taken victim.key other.key := by
  have victimMember := (mem_order moment).mp (mem_of_leastUsed? found)
  have notLess := not_usedLess_of_leastUsed? found ((mem_order moment).mpr member)
  have apart := remembers.lastUse_ne ticks member victimMember differs
  simp only [Entry.UsedLess, not_or, not_and, not_lt] at notLess
  obtain ⟨notFewer, notEarlier⟩ := notLess
  rw [UsedLess, ← remembers.uses victim victimMember, ← remembers.uses other member]
  rcases Nat.lt_or_eq_of_le notFewer with fewer | equal
  · exact .inl fewer
  · exact .inr ⟨equal, _, _, remembers.lastUse victim victimMember, remembers.lastUse other member,
      Nat.lt_of_le_of_ne (notEarlier equal.symm) apart.symm⟩

/-- Whenever a key is put in, at most one entry makes room, and one does exactly when the cache is full
and the key is new. Where the clock has gone forward, it is the one that has been used less than every
other. The other entries stay as they are, the new one comes to them, and no other key has been used by
this. -/
theorem eviction_follows_history (patternFault? : String → Option String) {capacity : Nat}
    (positive : 1 ≤ capacity) {history : List Event}
    (ticks : (history.map fun event => event.moment.now).Pairwise (· < ·)) (event : Event) {key : Key}
    (inserted : (⟨reached patternFault? capacity history, event⟩ : Step).inserted? = some key) :
    ∃ victim? : Option (Entry Reading),
      (victim?.isSome = true
        ↔ (reached patternFault? capacity history).entries.length = capacity
          ∧ key ∉ (reached patternFault? capacity history).keys)
      ∧ (∀ victim, victim? = some victim →
        victim ∈ (reached patternFault? capacity history).entries
        ∧ ∀ other ∈ (reached patternFault? capacity history).keys, other ≠ victim.key →
          UsedLess (steps patternFault? capacity history) victim.key other)
      ∧ (reached patternFault? capacity (history ++ [event])).evictions
        = (reached patternFault? capacity history).evictions + victim?.toList.length
      ∧ (∃ outcome, (reached patternFault? capacity (history ++ [event])).entries
        = without (withoutVictim (reached patternFault? capacity history).entries victim?) key
          ++ [⟨key, outcome, 1, event.moment.now⟩])
      ∧ Remembers (steps patternFault? capacity (history ++ [event]))
        (reached patternFault? capacity (history ++ [event])).entries
      ∧ ∀ other, other ≠ key →
        usesIn (steps patternFault? capacity (history ++ [event])) other
          = usesIn (steps patternFault? capacity history) other
        ∧ lastUseIn (steps patternFault? capacity (history ++ [event])) other
          = lastUseIn (steps patternFault? capacity history) other := by
  obtain ⟨sound, sameCapacity⟩ := sound_reached patternFault? capacity history
  have remembers := remembers_reached patternFault? positive history
  have remembersAfter := remembers_reached patternFault? positive (history ++ [event])
  have fits := sound.fits
  have room : (reached patternFault? capacity history).capacity ≠ 0 := by omega
  obtain ⟨unchanged, outcome, applied, entries, evictions, capacityKept⟩ :=
    apply_of_inserted? patternFault? inserted
  obtain ⟨entriesAfter, evictionsAfter⟩ :=
    insert_victim? (by rwa [capacityKept]) event.moment key outcome
  rw [victim?_congr entries capacityKept] at entriesAfter evictionsAfter
  rw [← applied, ← reached_concat] at entriesAfter evictionsAfter
  rw [entries] at entriesAfter
  rw [evictions] at evictionsAfter
  refine ⟨(reached patternFault? capacity history).victim? event.moment key, ?_, ?_, evictionsAfter,
    ⟨outcome, entriesAfter⟩, remembersAfter, ?_⟩
  · rw [isSome_victim?_iff room, sameCapacity]
    constructor
    · rintro ⟨full, absent⟩
      exact ⟨by omega, absent⟩
    · rintro ⟨full, absent⟩
      exact ⟨by omega, absent⟩
  · intro victim evicted
    have found := leastUsed?_of_victim? evicted
    refine ⟨(mem_order event.moment).mp (mem_of_leastUsed? found), ?_⟩
    intro other present differs
    obtain ⟨entry, inEntries, rfl⟩ := List.mem_map.mp present
    have forward : ((steps patternFault? capacity history).map Step.now).Pairwise (· < ·) := by
      rwa [steps, map_now_stepsFrom]
    exact remembers.usedLess forward found inEntries differs
  · intro other differs
    have unused := isUse_eq_false_of_ne (isUse_of_inserted? inserted) differs
    rw [steps_concat]
    exact ⟨usesIn_of_not_isUse unused, lastUseIn_of_not_isUse unused⟩

/-- Three texts of one consumer in a cache for two: both of the first two are found again, and then the
first one is put in anew, which makes its uses few and its last use recent. -/
def replacingHistory : List Event :=
  [⟨.at 1, .insert ⟨"left", "Box"⟩ (.ok ⟨[], []⟩)⟩, ⟨.at 2, .insert ⟨"left", "Bag"⟩ (.ok ⟨[], []⟩)⟩,
    ⟨.at 4, .lookup "left" "Box"⟩, ⟨.at 5, .lookup "left" "Bag"⟩,
    ⟨.at 7, .insert ⟨"left", "Box"⟩ (.ok ⟨[], []⟩)⟩]

/-- A third text, while the entries are listed the other way round. -/
def lidEvent : Event :=
  ⟨⟨9, List.reverse, List.reverse_perm⟩, .insert ⟨"left", "Lid"⟩ (.ok ⟨[], []⟩)⟩

theorem eviction_follows_replacingHistory :
    1 ≤ 2 ∧ (replacingHistory.map fun event => event.moment.now).Pairwise (· < ·)
      ∧ (⟨reached (fun _ => none) 2 replacingHistory, lidEvent⟩ : Step).inserted?
        = some ⟨"left", "Lid"⟩
      ∧ ∃ victim, victim ∈ (reached (fun _ => none) 2 replacingHistory).entries
        ∧ victim.key = ⟨"left", "Box"⟩
        ∧ UsedLess (steps (fun _ => none) 2 replacingHistory) ⟨"left", "Box"⟩ ⟨"left", "Bag"⟩
        ∧ (reached (fun _ => none) 2 (replacingHistory ++ [lidEvent])).evictions = 1 := by
  have ticks : (replacingHistory.map fun event => event.moment.now).Pairwise (· < ·) := by decide
  obtain ⟨victim?, needed, least, evictions, ⟨outcome, entries⟩, -⟩ :=
    eviction_follows_history (fun _ => none) (by decide : 1 ≤ 2) ticks lidEvent rfl
  have keys : (reached (fun _ => none) 2 replacingHistory).keys
      = [⟨"left", "Bag"⟩, ⟨"left", "Box"⟩] := by decide
  have isFull : (reached (fun _ => none) 2 replacingHistory).entries.length = 2 := by decide
  have absent : (⟨"left", "Lid"⟩ : Key) ∉ (reached (fun _ => none) 2 replacingHistory).keys := by
    decide
  obtain ⟨victim, rfl⟩ := Option.isSome_iff_exists.mp (needed.mpr ⟨isFull, absent⟩)
  obtain ⟨member, less⟩ := least victim rfl
  have present : victim.key ∈ (reached (fun _ => none) 2 replacingHistory).keys :=
    List.mem_map_of_mem member
  have box : usesIn (steps (fun _ => none) 2 replacingHistory) ⟨"left", "Box"⟩ = 1 := by decide
  have bag : usesIn (steps (fun _ => none) 2 replacingHistory) ⟨"left", "Bag"⟩ = 2 := by decide
  have isBox : victim.key = ⟨"left", "Box"⟩ := by
    rw [keys] at present less
    rcases List.mem_cons.mp present with isBag | isBox
    · have fewer := less ⟨"left", "Box"⟩ (by decide) (by rw [isBag]; decide)
      rw [isBag] at fewer
      rcases fewer with fewer | ⟨equal, -⟩ <;> omega
    · exact List.mem_singleton.mp isBox
  have fewer := less ⟨"left", "Bag"⟩ (by rw [keys]; decide) (by rw [isBox]; decide)
  rw [isBox] at fewer
  exact ⟨by decide, ticks, rfl, victim, member, isBox, fewer, evictions⟩

end ApiDef.Cache
