import ApiDef.Proofs.Reader.DocumentContent
import ApiDef.Proofs.Reader.Gap
import ApiDef.Proofs.Reader.Wording
import ApiDef.Proofs.Text.Locations
set_option autoImplicit false

/-!
# Where readers find things

The places that a reader asks about, and the place of a fault, lie on its way through the text. What a
fault says was found is the next character at its place. Readers that are put together find things where
their parts do.
-/

namespace ApiDef

open Text

namespace Question

/-- The places of what a question is about. -/
def places : Question → List Span
  | tags _ found => found.map Prod.snd
  | declare _ => []
  | type _ place => [place]
  | route _ place => [place]

/-- The places of all questions lie on the way from one cursor to another. -/
def AllWithin (base last : Cursor) (asked : List Question) : Prop :=
  ∀ question ∈ asked, ∀ place ∈ question.places, base.Encloses last place

/-- The places of all questions lie behind a cursor. -/
def AllHeld (base : Cursor) (asked : List Question) : Prop :=
  ∀ question ∈ asked, ∀ place ∈ question.places, base.Holds place

variable {base last later : Cursor} {asked others : List Question}

theorem allWithin_nil (base last : Cursor) : AllWithin base last [] :=
  List.forall_mem_nil _

theorem AllWithin.until (within : AllWithin base last asked) (reaches : last.Reaches later) :
    AllWithin base later asked :=
  fun question member place inside => (within question member place inside).until reaches

theorem AllWithin.held (within : AllWithin base last asked) : AllHeld base asked :=
  fun question member place inside => ⟨last, within question member place inside⟩

theorem AllHeld.append (here : AllHeld base asked) (there : AllHeld base others) :
    AllHeld base (asked ++ others) := by
  intro question member
  rcases List.mem_append.mp member with member | member
  · exact here question member
  · exact there question member

theorem AllWithin.append (here : AllWithin base last asked) (there : AllWithin base last others) :
    AllWithin base last (asked ++ others) := by
  intro question member
  rcases List.mem_append.mp member with member | member
  · exact here question member
  · exact there question member

end Question

/-- A fault lies behind a cursor, and if something unexpected was found, it is what stands there. -/
structure Fault.LiesBehind (base : Cursor) (fault : Fault) : Prop where
  holds : base.Holds fault.place
  unexpected : ∀ expected found, fault.cause = .unexpected expected found →
    (∀ alternative ∈ expected, alternative.isPlain = true)
      ∧ ∃ cursor, base.Reaches cursor ∧ fault.place = cursor.nextSpan ∧ found = cursor.rest.head?

namespace Reader

variable {α β σ : Type} {base start : Cursor}

/-- The reader comes to a good value and asks only about places on its way from the base, or it fails
there. -/
def Locates (reader : Reader α) (base start : Cursor) (good : α → Cursor → Prop) : Prop :=
  match reader.run start with
  | .done value after asked => good value after ∧ Question.AllWithin base after asked
  | .failed fault asked => fault.LiesBehind base ∧ Question.AllHeld base asked

/-- The reader asks and fails only on its way. -/
def IsLocated (reader : Reader α) : Prop :=
  ∀ base start : Cursor, base.Reaches start → reader.Locates base start fun _ _ => True

/-!
## Ways to put readers together
-/

theorem locates_of_run {reader : Reader α} {value : α} {after : Cursor} {good : α → Cursor → Prop}
    (ran : reader.run start = .done value after []) (holds : good value after) :
    reader.Locates base start good := by
  rw [Locates, ran]
  exact ⟨holds, Question.allWithin_nil base after⟩

theorem locates_pure {value : α} {good : α → Cursor → Prop} (holds : good value start) :
    (pure value : Reader α).Locates base start good :=
  locates_of_run (run_pure value start) holds

theorem isLocated_pure (value : α) : (pure value : Reader α).IsLocated :=
  fun _ _ _ => locates_pure trivial

theorem isLocated_of_quiet {reader : Reader α} (quiet : reader.Quiet)
    (never : ∀ start fault asked, reader.run start ≠ .failed fault asked) : reader.IsLocated := by
  intro base start _
  cases ran : reader.run start with
  | failed fault asked => exact absurd ran (never start fault asked)
  | done value after asked =>
    obtain rfl := quiet.asked_eq_nil ran
    exact locates_of_run ran trivial

theorem locates_failAt {place : Span} {cause : Fault.Cause} {good : α → Cursor → Prop}
    (holds : base.Holds place) (other : ∀ expected found, cause ≠ .unexpected expected found) :
    (failAt place cause : Reader α).Locates base start good := by
  refine ⟨⟨holds, fun expected found same => ?_⟩, List.forall_mem_nil _⟩
  exact absurd same (other expected found)

theorem isLocated_fail {cause : Fault.Cause}
    (other : ∀ expected found, cause ≠ .unexpected expected found) :
    (fail cause : Reader α).IsLocated := by
  intro base start reached
  refine ⟨⟨Cursor.holds_nextSpan reached, fun expected found same => ?_⟩, List.forall_mem_nil _⟩
  exact absurd same (other expected found)

theorem liesBehind_unexpected {cursor : Cursor} (reached : base.Reaches cursor)
    {expected : List Expected} (plain : ∀ alternative ∈ expected, alternative.isPlain = true) :
    Fault.LiesBehind base ⟨.unexpected expected cursor.rest.head?, cursor.nextSpan⟩ := by
  refine ⟨Cursor.holds_nextSpan reached, fun _ _ same => ?_⟩
  obtain ⟨rfl, rfl⟩ := Fault.Cause.unexpected.inj same
  exact ⟨plain, cursor, reached, rfl, rfl⟩

theorem locates_unexpected {expected : List Expected} {good : α → Cursor → Prop}
    (plain : ∀ alternative ∈ expected, alternative.isPlain = true) (reached : base.Reaches start) :
    (unexpected expected : Reader α).Locates base start good :=
  ⟨liesBehind_unexpected reached plain, List.forall_mem_nil _⟩

theorem isLocated_unexpected {expected : List Expected}
    (plain : ∀ alternative ∈ expected, alternative.isPlain = true) :
    (unexpected expected : Reader α).IsLocated :=
  fun _ _ reached => locates_unexpected plain reached

theorem Locates.mono {reader : Reader α} {strong weak : α → Cursor → Prop}
    (locates : reader.Locates base start strong)
    (imp : ∀ value after, start.Reaches after → strong value after → weak value after) :
    reader.Locates base start weak := by
  unfold Locates at locates ⊢
  cases ran : reader.run start with
  | failed fault asked =>
    rw [ran] at locates
    exact locates
  | done value after asked =>
    rw [ran] at locates
    exact ⟨imp value after (reader.forward ran) locates.1, locates.2⟩

theorem Locates.isLocated {reader : Reader α} {good : α → Cursor → Prop}
    (locates : reader.Locates base start good) : reader.Locates base start fun _ _ => True :=
  locates.mono fun _ _ _ _ => trivial

theorem Locates.bind {first : Reader α} {next : α → Reader β} {middle : α → Cursor → Prop}
    {good : β → Cursor → Prop} (firstLocates : first.Locates base start middle)
    (nextLocates : ∀ value after, start.Reaches after → middle value after →
      (next value).Locates base after good) : (first >>= next).Locates base start good := by
  unfold Locates at firstLocates ⊢
  rw [run_bind]
  cases ran : first.run start with
  | failed fault asked =>
    rw [ran] at firstLocates
    exact firstLocates
  | done value after asked =>
    rw [ran] at firstLocates
    obtain ⟨holds, earlier⟩ := firstLocates
    have further := nextLocates value after (first.forward ran) holds
    unfold Locates at further
    cases nextRan : (next value).run after with
    | failed fault others =>
      rw [nextRan] at further
      simp only [nextRan]
      exact And.intro further.1 (earlier.held.append further.2)
    | done result final others =>
      rw [nextRan] at further
      simp only [nextRan]
      have onward := (next value).forward nextRan
      exact And.intro further.1 ((earlier.until onward).append further.2)

theorem IsLocated.bind {first : Reader α} {next : α → Reader β} (firstLocated : first.IsLocated)
    (nextLocated : ∀ value, (next value).IsLocated) : (first >>= next).IsLocated := by
  intro base start reached
  apply (firstLocated base start reached).bind
  intro value after onward _
  exact nextLocated value base after (reached.trans onward)

/-- Behind a reader whose value tells nothing about places. -/
theorem IsLocated.andThen {first : Reader α} {next : α → Reader β} {good : β → Cursor → Prop}
    (firstLocated : first.IsLocated) (reached : base.Reaches start)
    (nextLocates : ∀ value after, start.Reaches after → (next value).Locates base after good) :
    (first >>= next).Locates base start good := by
  apply (firstLocated base start reached).bind
  intro value after onward _
  exact nextLocates value after onward

theorem locates_here_bind {next : Position → Reader β} {good : β → Cursor → Prop}
    (nextLocates : (next start.place).Locates base start good) :
    (here >>= next).Locates base start good := by
  have still : here.Locates base start fun place after => place = start.place ∧ after = start :=
    locates_of_run (run_here start) ⟨rfl, rfl⟩
  apply still.bind
  rintro _ _ _ ⟨rfl, rfl⟩
  exact nextLocates

theorem isLocated_here : here.IsLocated :=
  fun _ start _ => locates_of_run (run_here start) trivial

theorem locates_ask_bind {question : Question} {next : Unit → Reader β} {good : β → Cursor → Prop}
    (places : ∀ place ∈ question.places, base.Encloses start place)
    (nextLocates : (next ()).Locates base start good) :
    (ask question >>= next).Locates base start good := by
  have asking : (ask question).Locates base start fun _ after => after = start := by
    constructor
    · rfl
    · exact List.forall_mem_singleton.mpr places
  apply asking.bind
  rintro _ _ _ rfl
  exact nextLocates

theorem isLocated_ask {question : Question} (nowhere : question.places = []) :
    (ask question).IsLocated := by
  intro base start _
  constructor
  · trivial
  · have none : ∀ place ∈ question.places, base.Encloses start place := by
      rw [nowhere]
      exact List.forall_mem_nil _
    exact List.forall_mem_singleton.mpr none

/-- Nothing was asked, so nothing was asked about the characters that are given back. -/
theorem IsLocated.attempt {reader : Reader (Option α)} (located : reader.IsLocated)
    (quiet : reader.Quiet) : (Reader.attempt reader).IsLocated := by
  intro base start reached
  have locates := located base start reached
  unfold Locates at locates ⊢
  cases ran : reader.run start with
  | failed fault asked =>
    rw [ran] at locates
    simpa only [Reader.attempt, ran] using locates
  | done found after asked =>
    obtain rfl := quiet.asked_eq_nil ran
    cases found with
    | none =>
      simp only [Reader.attempt, ran]
      exact And.intro trivial (Question.allWithin_nil base start)
    | some value =>
      simp only [Reader.attempt, ran]
      exact And.intro trivial (Question.allWithin_nil base after)

/-- A loop finds values that are good at its end if each was good at the end of its round. -/
theorem locates_rounds {step : σ → Reader (Round σ β)}
    {advances : ∀ state, (step state).Advances Round.GoesOn} (valid : σ → Cursor → Prop)
    {good : β → Cursor → Prop}
    (lasting : ∀ value first second, first.Reaches second → good value first → good value second)
    (round : ∀ state start, base.Reaches start → valid state start →
      (step state).Locates base start fun result after =>
        result.Meets (valid · after) fun found => ∀ value ∈ found, good value after)
    {state : σ} (reached : base.Reaches start) (holds : valid state start) :
    (rounds step advances state).Locates base start fun found after =>
      ∀ value ∈ found, good value after := by
  rw [Locates, show (rounds step advances state).run start = runRounds step advances state start from rfl]
  fun_induction runRounds step advances state start with
  | case1 state start fault asked ran =>
    have here := round state start reached holds
    rw [Locates, ran] at here
    exact here
  | case2 state start found after asked ran =>
    have here := round state start reached holds
    rw [Locates, ran] at here
    exact here
  | case3 state start found further after asked ran ih =>
    have here := round state start reached holds
    rw [Locates, ran] at here
    obtain ⟨⟨foundGood, stateValid⟩, within⟩ := here
    have later := ih (reached.trans ((step state).forward ran)) stateValid
    cases inner : runRounds step advances further after with
    | failed fault others =>
      rw [inner] at later
      exact ⟨later.1, within.held.append later.2⟩
    | done others final asked' =>
      rw [inner] at later
      have onward := runRounds_forward step advances further after inner
      constructor
      · intro value member
        rcases List.mem_append.mp member with member | member
        · exact lasting value after final onward (foundGood value member)
        · exact later.1 value member
      · exact (within.until onward).append later.2

theorem isLocated_rounds {step : σ → Reader (Round σ β)}
    {advances : ∀ state, (step state).Advances Round.GoesOn}
    (round : ∀ state, (step state).IsLocated) (state : σ) : (rounds step advances state).IsLocated := by
  intro base start reached
  have each : (rounds step advances state).Locates base start fun found _ => ∀ value ∈ found, True := by
    apply locates_rounds (fun _ _ => True)
    · intro _ _ _ _ _
      trivial
    · intro state start reached _
      apply (round state base start reached).mono
      intro result after _ _
      cases result with
      | next => exact ⟨fun _ _ => trivial, trivial⟩
      | stop => exact fun _ _ => trivial
    · exact reached
    · trivial
  exact each.isLocated

end Reader

end ApiDef
