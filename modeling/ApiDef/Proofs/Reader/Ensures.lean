import ApiDef.Reader.Document
set_option autoImplicit false

/-!
# What holds whenever a reader succeeds

A condition on the value, the cursor behind it and the questions asked. Conditions compose along the
reader, so each reader needs one statement about itself.
-/

namespace ApiDef.Reader

open Text

variable {α β σ : Type}

/-- Whatever the reader comes to from here satisfies the condition. -/
def Ensures (reader : Reader α) (start : Cursor) (post : α → Cursor → List Question → Prop) : Prop :=
  ∀ value after asked, reader.run start = .done value after asked → post value after asked

theorem Ensures.mono {reader : Reader α} {start : Cursor}
    {strong weak : α → Cursor → List Question → Prop} (ensures : reader.Ensures start strong)
    (imp : ∀ value after asked, strong value after asked → weak value after asked) :
    reader.Ensures start weak :=
  fun value after asked ran => imp value after asked (ensures value after asked ran)

theorem Ensures.bind {first : Reader α} {next : α → Reader β} {start : Cursor}
    {middle : α → Cursor → List Question → Prop} {post : β → Cursor → List Question → Prop}
    (firstEnsures : first.Ensures start middle)
    (nextEnsures : ∀ value after asked, middle value after asked →
      (next value).Ensures after fun result final later => post result final (asked ++ later)) :
    (first >>= next).Ensures start post := by
  intro result final asked ran
  rw [run_bind] at ran
  cases firstRan : first.run start with
  | failed fault earlier => simp [firstRan] at ran
  | done value after earlier =>
    simp only [firstRan] at ran
    obtain ⟨later, nextRan, rfl⟩ := Outcome.asking_eq_done ran
    exact nextEnsures value after earlier (firstEnsures _ _ _ firstRan) _ _ _ nextRan

theorem ensures_pure {value : α} {start : Cursor} {post : α → Cursor → List Question → Prop}
    (holds : post value start []) : (pure value : Reader α).Ensures start post := by
  intro result after asked ran
  cases ran
  exact holds

theorem ensures_ask_bind {question : Question} {next : Unit → Reader β} {start : Cursor}
    {post : β → Cursor → List Question → Prop}
    (nextEnsures : (next ()).Ensures start fun result final later =>
      post result final (question :: later)) : (ask question >>= next).Ensures start post := by
  intro result final asked ran
  rw [run_bind] at ran
  obtain ⟨later, nextRan, rfl⟩ := Outcome.asking_eq_done ran
  exact nextEnsures result final later nextRan

theorem ensures_fail {cause : Fault.Cause} {start : Cursor}
    {post : α → Cursor → List Question → Prop} : (fail cause : Reader α).Ensures start post := by
  intro value after asked ran
  simp [fail] at ran

theorem ensures_failAt {place : Span} {cause : Fault.Cause} {start : Cursor}
    {post : α → Cursor → List Question → Prop} :
    (failAt place cause : Reader α).Ensures start post := by
  intro value after asked ran
  simp [failAt] at ran

theorem ensures_unexpected {expected : List Expected} {start : Cursor}
    {post : α → Cursor → List Question → Prop} :
    (unexpected expected : Reader α).Ensures start post := by
  intro value after asked ran
  simp [unexpected] at ran

/-- Going back to the start keeps what does not depend on the cursor. -/
theorem Ensures.attempt {reader : Reader (Option α)} {start : Cursor}
    {post : Option α → List Question → Prop}
    (ensures : reader.Ensures start fun value _ asked => post value asked) :
    (Reader.attempt reader).Ensures start fun value _ asked => post value asked := by
  intro value after asked ran
  simp only [Reader.attempt] at ran
  split at ran
  next result =>
    obtain ⟨rfl, -, rfl⟩ := Outcome.done.inj ran
    exact ensures _ _ _ result
  next => exact ensures _ _ _ ran

/-- What a round has found is good, and the state it goes on with is valid. -/
abbrev Round.Meets (valid : σ → Prop) (good : List β → Prop) : Round σ β → Prop
  | .next found further => good found ∧ valid further
  | .stop found => good found

/-- A loop ensures what every round ensures, if that survives joining rounds. -/
theorem ensures_rounds {step : σ → Reader (Round σ β)}
    {advances : ∀ state, (step state).Advances Round.GoesOn} (valid : σ → Prop)
    (good : List β → List Question → Prop)
    (join : ∀ found asked others later,
      good found asked → good others later → good (found ++ others) (asked ++ later))
    (round : ∀ state start, valid state → (step state).Ensures start fun result _ asked =>
      result.Meets valid (good · asked))
    {state : σ} {start : Cursor} (holds : valid state) :
    (rounds step advances state).Ensures start fun found _ asked => good found asked := by
  intro value after asked ran
  change runRounds step advances state start = _ at ran
  fun_induction runRounds step advances state start generalizing value asked with
  | case1 => simp at ran
  | case2 state start found middle earlier result =>
    simp only [Outcome.done.injEq] at ran
    obtain ⟨rfl, -, rfl⟩ := ran
    exact round state start holds _ _ _ result
  | case3 state start found further middle earlier result ih =>
    obtain ⟨here, later⟩ := round state start holds _ _ _ result
    obtain ⟨others, laterAsked, inner, rfl, rfl⟩ := Outcome.joined_eq_done ran
    exact join _ _ _ _ here (ih later _ _ inner)

/-- What holds of every value of the next reader, whatever the first one came to. -/
theorem ensures_bind_value {first : Reader α} {next : α → Reader β} {start : Cursor}
    {good : β → Prop}
    (nextEnsures : ∀ value after, (next value).Ensures after fun result _ _ => good result) :
    (first >>= next).Ensures start fun result _ _ => good result := by
  have anything : first.Ensures start fun _ _ _ => True := fun _ _ _ _ => trivial
  exact anything.bind fun value after _ _ => nextEnsures value after

/-- What the rounds from this one on come to is good if what the rounds behind it come to is. -/
def Round.Leads (good : σ → Cursor → List β → Cursor → Prop) (state : σ) (start after : Cursor) :
    Round σ β → Prop
  | .next found further => ∀ others final, good further after others final →
      good state start (found ++ others) final
  | .stop found => good state start found after

/-- A loop ensures of each state what every round makes of what the next state ensures. -/
theorem ensures_rounds_leads {step : σ → Reader (Round σ β)}
    {advances : ∀ state, (step state).Advances Round.GoesOn}
    {good : σ → Cursor → List β → Cursor → Prop}
    (round : ∀ state start, (step state).Ensures start fun result after _ =>
      result.Leads good state start after)
    (state : σ) (start : Cursor) :
    (rounds step advances state).Ensures start fun found after _ => good state start found after := by
  intro value after asked ran
  change runRounds step advances state start = _ at ran
  fun_induction runRounds step advances state start generalizing value asked with
  | case1 => cases ran
  | case2 state start found middle earlier result =>
    obtain ⟨rfl, rfl, -⟩ := Outcome.done.inj ran
    exact round state start _ _ _ result
  | case3 state start found further middle earlier result ih =>
    have leads := round state start _ _ _ result
    obtain ⟨others, later, inner, rfl, -⟩ := Outcome.joined_eq_done ran
    exact leads others _ (ih _ _ inner)

/-!
## Readers that ask nothing
-/

/-- The reader never asks, whatever it comes to. -/
def Quiet (reader : Reader α) : Prop :=
  ∀ start, (reader.run start).asked = []

theorem Quiet.asked_eq_nil {reader : Reader α} (quiet : reader.Quiet) {start after : Cursor}
    {value : α} {asked : List Question} (ran : reader.run start = .done value after asked) :
    asked = [] := by
  have none := quiet start
  rwa [ran] at none

theorem Quiet.bind {first : Reader α} {next : α → Reader β} (firstQuiet : first.Quiet)
    (nextQuiet : ∀ value, (next value).Quiet) : (first >>= next).Quiet := by
  intro start
  rw [run_bind]
  cases ran : first.run start with
  | failed fault asked =>
    have none := firstQuiet start
    rwa [ran] at none
  | done value after asked =>
    obtain rfl := firstQuiet.asked_eq_nil ran
    change (((next value).run after).asking []).asked = []
    rw [Outcome.asking_nil]
    exact nextQuiet value after

/-- Behind a reader that asks nothing only the questions of the next one count. -/
theorem Quiet.andThen {first : Reader α} {next : α → Reader β} {start : Cursor}
    {post : β → Cursor → List Question → Prop} (quiet : first.Quiet)
    (nextEnsures : ∀ value after, first.run start = .done value after [] →
      (next value).Ensures after post) : (first >>= next).Ensures start post := by
  have here : first.Ensures start fun value after asked =>
      first.run start = .done value after [] ∧ asked = [] := by
    intro value after asked ran
    obtain rfl := quiet.asked_eq_nil ran
    exact ⟨ran, rfl⟩
  refine here.bind fun value after asked ran => ?_
  obtain ⟨ran, rfl⟩ := ran
  exact nextEnsures value after ran

/-- What is ensured of a reader that asks nothing. -/
theorem Ensures.andThen {first : Reader α} {next : α → Reader β} {start : Cursor} {good : α → Prop}
    {post : β → Cursor → List Question → Prop}
    (firstEnsures : first.Ensures start fun value _ asked => good value ∧ asked = [])
    (nextEnsures : ∀ value after, good value → (next value).Ensures after post) :
    (first >>= next).Ensures start post := by
  refine firstEnsures.bind fun value after asked facts => ?_
  obtain ⟨holds, rfl⟩ := facts
  exact nextEnsures value after holds

theorem quiet_pure (value : α) : (pure value : Reader α).Quiet :=
  fun _ => rfl

theorem quiet_fail (cause : Fault.Cause) : (fail cause : Reader α).Quiet :=
  fun _ => rfl

theorem quiet_failAt (place : Span) (cause : Fault.Cause) : (failAt place cause : Reader α).Quiet :=
  fun _ => rfl

theorem quiet_unexpected (expected : List Expected) : (unexpected expected : Reader α).Quiet :=
  fun _ => rfl

theorem quiet_here : here.Quiet :=
  fun _ => rfl

theorem quiet_look (f : List Char → α) : (look f).Quiet :=
  fun _ => rfl

theorem quiet_lookingAt (c : Char) : (lookingAt c).Quiet := quiet_look _

theorem quiet_takeWhile (p : Char → Bool) : (takeWhile p).Quiet :=
  fun _ => rfl

theorem quiet_eatText (text : List Char) : (eatText text).Quiet := by
  intro start
  simp only [eatText]
  split <;> rfl

theorem quiet_eat (c : Char) : (eat c).Quiet := quiet_eatText [c]

theorem quiet_require (c : Char) : (require c).Quiet := by
  refine (quiet_eat c).bind fun found => ?_
  split
  · exact quiet_pure ()
  · exact quiet_unexpected _

theorem Quiet.attempt {reader : Reader (Option α)} (quiet : reader.Quiet) :
    (Reader.attempt reader).Quiet := by
  intro start
  simp only [Reader.attempt]
  split
  next ran => exact quiet.asked_eq_nil ran
  next => exact quiet start

theorem quiet_rounds {step : σ → Reader (Round σ β)}
    {advances : ∀ state, (step state).Advances Round.GoesOn} (quiet : ∀ state, (step state).Quiet)
    (state : σ) : (rounds step advances state).Quiet := by
  intro start
  change (runRounds step advances state start).asked = []
  fun_induction runRounds step advances state start with
  | case1 state start fault asked result =>
    have none := quiet state start
    rwa [result] at none
  | case2 state start found after asked result => exact (quiet state).asked_eq_nil result
  | case3 state start found further after asked result ih =>
    obtain rfl := (quiet state).asked_eq_nil result
    rwa [Outcome.asking_nil, Outcome.asked_map]

theorem quiet_skipBlanks : skipBlanks.Quiet :=
  (quiet_takeWhile _).bind fun _ => quiet_pure _

theorem quiet_skipComment : skipComment.Quiet := by
  intro start
  simp only [skipComment]
  split <;> rfl

theorem quiet_skipTrivia : skipTrivia.Quiet := by
  refine (quiet_rounds (fun state => ?_) ()).bind fun _ => quiet_pure _
  refine quiet_skipBlanks.bind fun _ => quiet_skipComment.bind fun found => ?_
  split <;> exact quiet_pure _

theorem quiet_identifier? : identifier?.Quiet := by
  intro start
  simp only [identifier?]
  split <;> rfl

theorem quiet_identifier (also : List Expected) : (identifier also).Quiet := by
  refine quiet_identifier?.bind fun found => ?_
  cases found with
  | some name => exact quiet_pure name
  | none => exact quiet_unexpected _

theorem quiet_literal : literal.Quiet := by
  intro start
  simp only [literal]
  split <;> rfl

theorem quiet_separated {gap : Reader Unit} {item : Advancing α} {close : Char} (gapQuiet : gap.Quiet)
    (itemQuiet : item.toReader.Quiet) : (separated gap item close).Quiet := by
  refine quiet_rounds (fun state => ?_) ()
  refine gapQuiet.bind fun _ => itemQuiet.bind fun value => gapQuiet.bind fun _ => ?_
  refine (quiet_eat close).bind fun closed => ?_
  split
  · exact quiet_pure _
  · refine (quiet_eat ',').bind fun comma => ?_
    split
    · exact quiet_pure _
    · exact quiet_unexpected _

theorem quiet_spanned {reader : Reader α} (quiet : reader.Quiet) : (spanned reader).Quiet :=
  quiet_here.bind fun _ => quiet.bind fun _ => quiet_here.bind fun _ => quiet_pure _

/-- Rounds that ask nothing and find only good values. -/
theorem ensures_rounds_each {step : σ → Reader (Round σ β)}
    {advances : ∀ state, (step state).Advances Round.GoesOn} {good : β → Prop}
    (round : ∀ state start, (step state).Ensures start fun result _ asked =>
      result.Meets (fun _ => True) fun found => (∀ value ∈ found, good value) ∧ asked = [])
    (state : σ) (start : Cursor) :
    (rounds step advances state).Ensures start fun found _ asked =>
      (∀ value ∈ found, good value) ∧ asked = [] := by
  refine ensures_rounds (fun _ => True)
    (fun found asked => (∀ value ∈ found, good value) ∧ asked = []) ?_
    (fun state start _ => round state start) trivial
  intro found asked others later here there
  obtain ⟨foundGood, rfl⟩ := here
  obtain ⟨othersGood, rfl⟩ := there
  refine ⟨fun value member => ?_, rfl⟩
  rcases List.mem_append.mp member with member | member
  · exact foundGood value member
  · exact othersGood value member

/-- A list of items that ask nothing asks nothing, and holds only items that the reader gives. -/
theorem ensures_separated {gap : Reader Unit} {item : Advancing α} {close : Char} {good : α → Prop}
    (gapQuiet : gap.Quiet)
    (itemEnsures : ∀ start, item.toReader.Ensures start fun value _ asked => good value ∧ asked = [])
    (start : Cursor) :
    (separated gap item close).Ensures start fun values _ asked =>
      (∀ value ∈ values, good value) ∧ asked = [] := by
  refine ensures_rounds_each (fun state start => ?_) () start
  refine gapQuiet.andThen fun _ beforeItem _ => (itemEnsures beforeItem).andThen ?_
  intro value afterItem holds
  have single : ∀ other ∈ [value], good other := List.forall_mem_singleton.mpr holds
  refine gapQuiet.andThen fun _ _ _ => (quiet_eat close).andThen fun closed _ _ => ?_
  split
  · exact ensures_pure ⟨single, rfl⟩
  · refine (quiet_eat ',').andThen fun comma _ _ => ?_
    split
    · exact ensures_pure ⟨⟨single, rfl⟩, trivial⟩
    · exact ensures_unexpected

theorem ensures_spanned {reader : Reader α} {good : α → Prop} {start : Cursor}
    (ensures : reader.Ensures start fun value _ asked => good value ∧ asked = []) :
    (spanned reader).Ensures start fun result _ asked => good result.1 ∧ asked = [] := by
  refine quiet_here.andThen fun place after ran => ?_
  obtain ⟨-, rfl, -⟩ := Outcome.done.inj ran
  exact ensures.andThen fun value _ holds => quiet_here.andThen fun _ _ _ => ensures_pure ⟨holds, rfl⟩

end ApiDef.Reader
