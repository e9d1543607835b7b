import ApiDef.Proofs.Text.Scanning
import ApiDef.Reader.Document
set_option autoImplicit false

/-!
# What a reader comes to

A reader is followed along a text that is known. It comes to its value exactly if the value fits into
the nesting limit; otherwise it fails for that reason and no other.
-/

namespace ApiDef

open Text

namespace Outcome

variable {α : Type}

theorem map_nil_append (outcome : Outcome (List α)) : outcome.map ([] ++ ·) = outcome := by
  cases outcome <;> rfl

/-- What two parts of a reading have found and asked is joined in order. -/
theorem map_append_asking (found others : List α) (earlier later : List Question)
    (outcome : Outcome (List α)) :
    (((outcome.asking later).map (others ++ ·)).asking earlier).map (found ++ ·)
      = (outcome.asking (earlier ++ later)).map (found ++ others ++ ·) := by
  cases outcome <;> simp [asking, map]

end Outcome

namespace Reader

variable {α β σ : Type}

/-!
## Runs that ask nothing
-/

theorem run_andThen {first : Reader α} {next : α → Reader β} {start middle : Cursor} {value : α}
    (ran : first.run start = .done value middle []) :
    (first >>= next).run start = (next value).run middle := by
  rw [run_bind, ran]
  exact Outcome.asking_nil _

theorem run_here (start : Cursor) : here.run start = .done start.place start [] := rfl

theorem run_look (f : List Char → α) (start : Cursor) :
    (look f).run start = .done (f start.rest) start [] := rfl

theorem run_ask (question : Question) (start : Cursor) :
    (ask question).run start = .done () start [question] := rfl

theorem run_lookingAt {c : Char} {start : Cursor} {tail : List Char} (rest : start.rest = c :: tail) :
    (lookingAt c).run start = .done true start [] := by
  simp [lookingAt, look, rest]

theorem run_lookingAt_other {c : Char} {start : Cursor} (other : start.rest.head? ≠ some c) :
    (lookingAt c).run start = .done false start [] := by
  simp [lookingAt, look, other]

theorem run_eat {c : Char} {start : Cursor} {tail : List Char} (rest : start.rest = c :: tail) :
    (eat c).run start = .done true (start.pass [c] tail) [] := by
  simp [eat, eatText, rest]

theorem run_eat_other {c : Char} {start : Cursor} (other : start.rest.head? ≠ some c) :
    (eat c).run start = .done false start [] := by
  cases rest : start.rest with
  | nil => simp [eat, eatText, rest]
  | cons first others =>
    have different : c ≠ first := by
      intro same
      exact other (by rw [rest, same, List.head?_cons])
    simp [eat, eatText, rest, different]

theorem run_require {c : Char} {start : Cursor} {tail : List Char} (rest : start.rest = c :: tail) :
    (require c).run start = .done () (start.pass [c] tail) [] := by
  rw [require, run_andThen (run_eat rest)]
  rfl

theorem run_eatText {text : List Char} {start : Cursor} {tail : List Char}
    (rest : start.rest = text ++ tail) :
    (eatText text).run start = .done true (start.pass text tail) [] := by
  have starts : text.isPrefixOf (text ++ tail) = true :=
    List.isPrefixOf_iff_prefix.mpr (List.prefix_append _ _)
  simp only [eatText, rest, starts, if_true, List.drop_left]

theorem run_attempt_none {reader : Reader (Option α)} {start after : Cursor}
    (ran : reader.run start = .done none after []) :
    (attempt reader).run start = .done none start [] := by
  simp [attempt, ran]

theorem run_rounds (step : σ → Reader (Round σ β))
    (advances : ∀ state, (step state).Advances Round.GoesOn) (state : σ) (start : Cursor) :
    (rounds step advances state).run start =
      match (step state).run start with
      | .failed fault asked => .failed fault asked
      | .done (.stop found) after asked => .done found after asked
      | .done (.next found further) after asked =>
        (((rounds step advances further).run after).asking asked).map (found ++ ·) := by
  change runRounds step advances state start = _
  rw [runRounds]
  split <;> simp_all [rounds]

/-!
## Values that fit
-/

/-- From here the reader comes to a good value if it fits, and otherwise to the nesting limit. -/
def Yields (reader : Reader α) (start : Cursor) (fits : Prop) (good : α → Cursor → Prop) : Prop :=
  match reader.run start with
  | .done value after _ => fits ∧ good value after
  | .failed fault _ => ¬fits ∧ ∃ limit, fault.cause = .tooDeep limit

/-- Exactly this value, in front of exactly this text. -/
def Gives (value : α) (tail : List Char) (result : α) (after : Cursor) : Prop :=
  result = value ∧ after.rest = tail

theorem Yields.mono {reader : Reader α} {start : Cursor} {fits : Prop} {strong weak : α → Cursor → Prop}
    (yields : reader.Yields start fits strong)
    (imp : ∀ value after, strong value after → weak value after) : reader.Yields start fits weak := by
  unfold Yields at yields ⊢
  cases ran : reader.run start with
  | done value after asked =>
    rw [ran] at yields
    exact ⟨yields.1, imp _ _ yields.2⟩
  | failed fault asked =>
    rw [ran] at yields
    exact yields

theorem Yields.of_iff {reader : Reader α} {start : Cursor} {fits other : Prop}
    {good : α → Cursor → Prop} (yields : reader.Yields start fits good) (same : fits ↔ other) :
    reader.Yields start other good := by
  rwa [← propext same]

theorem yields_of_run {reader : Reader α} {start after : Cursor} {value : α}
    {asked : List Question} {good : α → Cursor → Prop}
    (ran : reader.run start = .done value after asked) (holds : good value after) :
    reader.Yields start True good := by
  rw [Yields, ran]
  exact ⟨trivial, holds⟩

theorem yields_pure {value : α} {start : Cursor} {good : α → Cursor → Prop}
    (holds : good value start) : (pure value : Reader α).Yields start True good :=
  yields_of_run (run_pure value start) holds

theorem yields_tooDeep {limit : Nat} {start : Cursor} {fits : Prop} {good : α → Cursor → Prop}
    (deeper : ¬fits) : (fail (.tooDeep limit) : Reader α).Yields start fits good :=
  ⟨deeper, limit, rfl⟩

theorem Yields.attempt {reader : Reader (Option α)} {start : Cursor} {fits : Prop} {value : α}
    {tail : List Char} (yields : reader.Yields start fits (Gives (some value) tail)) :
    (Reader.attempt reader).Yields start fits (Gives (some value) tail) := by
  unfold Yields at yields ⊢
  cases ran : reader.run start with
  | done found after asked =>
    rw [ran] at yields
    obtain ⟨holds, rfl, rest⟩ := yields
    simp only [Reader.attempt, ran]
    exact ⟨holds, rfl, rest⟩
  | failed fault asked =>
    rw [ran] at yields
    simp only [Reader.attempt, ran]
    exact yields

theorem Yields.bind {first : Reader α} {next : α → Reader β} {start : Cursor} {here there : Prop}
    {middle : α → Cursor → Prop} {good : β → Cursor → Prop} (firstYields : first.Yields start here middle)
    (nextYields : ∀ value after, middle value after → (next value).Yields after there good) :
    (first >>= next).Yields start (here ∧ there) good := by
  unfold Yields at firstYields ⊢
  rw [run_bind]
  cases ran : first.run start with
  | failed fault asked =>
    rw [ran] at firstYields
    exact ⟨fun fits => firstYields.1 fits.1, firstYields.2⟩
  | done value after asked =>
    rw [ran] at firstYields
    have further := nextYields value after firstYields.2
    unfold Yields at further
    cases nextRan : (next value).run after with
    | failed fault later =>
      rw [nextRan] at further
      simp only [nextRan]
      exact And.intro (fun fits => further.1 fits.2) further.2
    | done result final later =>
      rw [nextRan] at further
      simp only [nextRan]
      exact And.intro ⟨firstYields.1, further.1⟩ further.2

/-- Only the second reader may run into the limit. -/
theorem Yields.andThen {first : Reader α} {next : α → Reader β} {start : Cursor} {fits : Prop}
    {middle : α → Cursor → Prop} {good : β → Cursor → Prop} (firstYields : first.Yields start True middle)
    (nextYields : ∀ value after, middle value after → (next value).Yields after fits good) :
    (first >>= next).Yields start fits good :=
  (firstYields.bind nextYields).of_iff (iff_of_eq (true_and fits))

/-- Only the first reader may run into the limit. -/
theorem Yields.finally {first : Reader α} {next : α → Reader β} {start : Cursor} {fits : Prop}
    {middle : α → Cursor → Prop} {good : β → Cursor → Prop} (firstYields : first.Yields start fits middle)
    (nextYields : ∀ value after, middle value after → (next value).Yields after True good) :
    (first >>= next).Yields start fits good :=
  (firstYields.bind nextYields).of_iff (iff_of_eq (and_true fits))

/-- The first reader comes to a known value at a known place. -/
theorem yields_after {first : Reader α} {next : α → Reader β} {start middle : Cursor} {value : α}
    {asked : List Question} {fits : Prop} {good : β → Cursor → Prop}
    (ran : first.run start = .done value middle asked)
    (nextYields : (next value).Yields middle fits good) : (first >>= next).Yields start fits good := by
  have exact : first.Yields start True fun result after => result = value ∧ after = middle :=
    yields_of_run ran ⟨rfl, rfl⟩
  refine exact.andThen fun result after same => ?_
  obtain ⟨rfl, rfl⟩ := same
  exact nextYields

/-- A round that goes on, and the rounds behind it. -/
theorem yields_rounds_next {step : σ → Reader (Round σ β)}
    {advances : ∀ state, (step state).Advances Round.GoesOn} {state : σ} {start : Cursor}
    {here there : Prop} {good : List β → Cursor → Prop}
    (round : (step state).Yields start here fun result after =>
      ∃ found further, result = .next found further
        ∧ (rounds step advances further).Yields after there fun others final =>
          good (found ++ others) final) :
    (rounds step advances state).Yields start (here ∧ there) good := by
  unfold Yields at round ⊢
  rw [run_rounds]
  cases ran : (step state).run start with
  | failed fault asked =>
    rw [ran] at round
    exact ⟨fun fits => round.1 fits.1, round.2⟩
  | done result after asked =>
    rw [ran] at round
    obtain ⟨holds, found, further, rfl, others⟩ := round
    -- The rounds behind this one decide whether the whole fits.
    cases inner : (rounds step advances further).run after with
    | failed fault later =>
      rw [inner] at others
      simp only [inner]
      exact And.intro (fun fits => others.1 fits.2) others.2
    | done values final later =>
      rw [inner] at others
      simp only [inner]
      exact And.intro ⟨holds, others.1⟩ others.2

theorem yields_rounds_stop {step : σ → Reader (Round σ β)}
    {advances : ∀ state, (step state).Advances Round.GoesOn} {state : σ} {start : Cursor}
    {fits : Prop} {good : List β → Cursor → Prop}
    (round : (step state).Yields start fits fun result after =>
      ∃ found, result = .stop found ∧ good found after) :
    (rounds step advances state).Yields start fits good := by
  unfold Yields at round ⊢
  rw [run_rounds]
  cases ran : (step state).run start with
  | failed fault asked =>
    rw [ran] at round
    exact round
  | done result after asked =>
    rw [ran] at round
    obtain ⟨holds, found, rfl, last⟩ := round
    exact ⟨holds, last⟩

theorem Yields.spanned {reader : Reader α} {start : Cursor} {fits : Prop} {good : α → Cursor → Prop}
    (yields : reader.Yields start fits good) :
    (spanned reader).Yields start fits fun result after => good result.1 after := by
  refine yields_after (run_here start) (yields.finally fun value after holds => ?_)
  exact yields_after (run_here after) (yields_pure holds)

end Reader

end ApiDef
