import ApiDef.Proofs.Reader.Gap
import ApiDef.Proofs.Text.Cut
set_option autoImplicit false

/-!
# Reading a piece of a text again

What a reader makes of a text depends on nothing in front of it, and on nothing behind what it takes.
So it makes the same of a copy that stands elsewhere and may be cut short anywhere behind what it took.
Only lines are counted on the way, and they are as many lines further in one text as in the other.
-/

namespace ApiDef

open Text

/-- What stands between the first two cursors stands between the other two, where it is `lines` lines
further up, and the text may be cut short behind it. -/
structure Cursor.Copies (lines : Nat) (start stop first last : Cursor) : Prop where
  passed : ∃ passed, start.rest = passed ++ stop.rest ∧ first.rest = passed ++ last.rest
    ∧ last = first.pass passed last.rest
  cut : last.rest <+: stop.rest
  line : start.place.line = first.place.line + lines

namespace Cursor

variable {lines : Nat} {start middle stop first last : Cursor}

/-- Where nothing is taken nothing is copied. -/
theorem Copies.still (copies : Copies lines start start first last) :
    last = first ∧ first.rest <+: start.rest := by
  obtain ⟨⟨passed, rest, copy, behind⟩, cut, -⟩ := copies
  obtain rfl : passed = [] := by simpa using rest
  have same : last = first := by
    rw [behind, pass, show last.rest = first.rest from copy.symm]
    rfl
  exact ⟨same, same ▸ cut⟩

/-- What is copied is copied in two pieces. -/
theorem Copies.split (copies : Copies lines start stop first last) (here : start.Reaches middle)
    (there : middle.Reaches stop) :
    ∃ between, Copies lines start middle first between ∧ Copies lines middle stop between last := by
  obtain ⟨⟨passed, rest, copy, behind⟩, cut, line⟩ := copies
  obtain ⟨left, leftRest, leftPlace⟩ := here
  obtain ⟨right, rightRest, -⟩ := there
  have same : passed ++ stop.rest = left ++ right ++ stop.rest := by
    rw [← rest, leftRest, rightRest, List.append_assoc]
  obtain rfl : passed = left ++ right := List.append_cancel_right same
  rw [List.append_assoc] at copy
  refine ⟨first.pass left (right ++ last.rest), ⟨⟨left, leftRest, copy, rfl⟩, ?_, line⟩,
    ⟨⟨right, rightRest, rfl, ?_⟩, cut, ?_⟩⟩
  · rw [rightRest]
    exact (List.prefix_append_right_inj right).mpr cut
  · rw [behind]
    simp only [pass, Position.advanceOver_append]
  · rw [leftPlace, pass, Position.line_advanceOver, Position.line_advanceOver, line]
    omega

/-- The same character stands at the front of both texts if one is taken. -/
theorem Copies.head? (copies : Copies lines start stop first last)
    (shorter : stop.rest.length < start.rest.length) : first.rest.head? = start.rest.head? := by
  obtain ⟨⟨passed, rest, copy, -⟩, -, -⟩ := copies
  cases passed with
  | nil =>
    rw [rest] at shorter
    exact absurd shorter (Nat.lt_irrefl _)
  | cons c others => rw [rest, copy, List.cons_append, List.cons_append, List.head?_cons, List.head?_cons]

end Cursor

namespace Reader

variable {α β γ δ σ τ : Type} {lines : Nat}

/-- The second reader comes to the same in a copy as the first one in its text. -/
def Replays (lines : Nat) (same : α → β → Prop) (reader : Reader α) (again : Reader β) : Prop :=
  ∀ start value stop first last, reader.Reads start value stop →
    Cursor.Copies lines start stop first last → ∃ found, same value found ∧ again.Reads first found last

/-- The reader comes to the same value in every copy. -/
def IsReplayed (reader : Reader α) : Prop :=
  ∀ lines, Replays lines Eq reader reader

/-!
## Ways to put readers together
-/

theorem replays_pure {same : α → β → Prop} {value : α} {found : β} (holds : same value found) :
    Replays lines same (pure value) (pure found) := by
  intro start result stop first last read copies
  obtain ⟨rfl, rfl⟩ := reads_pure_iff.mp read
  obtain ⟨rfl, -⟩ := copies.still
  exact ⟨found, holds, reads_pure_iff.mpr ⟨rfl, rfl⟩⟩

theorem isReplayed_pure (value : α) : (pure value : Reader α).IsReplayed :=
  fun _ => replays_pure rfl

theorem Replays.bind {same : α → β → Prop} {good : γ → δ → Prop} {first : Reader α} {again : Reader β}
    {next : α → Reader γ} {nextAgain : β → Reader δ} (firstReplays : Replays lines same first again)
    (nextReplays : ∀ value found, same value found →
      Replays lines good (next value) (nextAgain found)) :
    Replays lines good (first >>= next) (again >>= nextAgain) := by
  intro start result stop front back read copies
  obtain ⟨value, middle, readFirst, readNext⟩ := reads_bind_iff.mp read
  obtain ⟨between, here, there⟩ := copies.split readFirst.reaches readNext.reaches
  obtain ⟨found, sameValue, foundRead⟩ := firstReplays start value middle front between readFirst here
  obtain ⟨later, sameResult, laterRead⟩ :=
    nextReplays value found sameValue middle result stop between back readNext there
  exact ⟨later, sameResult, reads_bind_iff.mpr ⟨found, between, foundRead, laterRead⟩⟩

theorem IsReplayed.andThen {good : γ → δ → Prop} {first : Reader α} {next : α → Reader γ}
    {nextAgain : α → Reader δ} (firstReplayed : first.IsReplayed)
    (nextReplays : ∀ value, Replays lines good (next value) (nextAgain value)) :
    Replays lines good (first >>= next) (first >>= nextAgain) := by
  apply (firstReplayed lines).bind
  rintro value _ rfl
  exact nextReplays value

theorem IsReplayed.bind {first : Reader α} {next : α → Reader β} (firstReplayed : first.IsReplayed)
    (nextReplayed : ∀ value, (next value).IsReplayed) : (first >>= next).IsReplayed :=
  fun lines => firstReplayed.andThen fun value => nextReplayed value lines

theorem replays_of_failing {same : α → β → Prop} {reader : Reader α} {again : Reader β}
    (fails : ∀ start value stop, ¬reader.Reads start value stop) : Replays lines same reader again :=
  fun start value stop _ _ read => absurd read (fails start value stop)

theorem replays_unexpected {same : α → β → Prop} {expected : List Expected} {again : Reader β} :
    Replays lines same (unexpected expected) again :=
  replays_of_failing fun _ _ _ => not_reads_of_failed rfl

theorem isReplayed_unexpected (expected : List Expected) :
    (unexpected expected : Reader α).IsReplayed :=
  fun _ => replays_unexpected

theorem isReplayed_fail (cause : Fault.Cause) : (fail cause : Reader α).IsReplayed :=
  fun _ => replays_of_failing fun _ _ _ => not_reads_of_failed rfl

/-- Questions may name other places. -/
theorem replays_ask (question other : Question) : Replays lines Eq (ask question) (ask other) := by
  rintro start _ stop first last ⟨asked, ran⟩ copies
  obtain ⟨rfl, rfl, -⟩ := Outcome.done.inj ran
  obtain ⟨rfl, -⟩ := copies.still
  exact ⟨(), rfl, _, run_ask other last⟩

theorem isReplayed_ask (question : Question) : (ask question).IsReplayed :=
  fun _ => replays_ask question question

/-- A line is as much further down as the text is. -/
def ShiftedLine (lines : Nat) (place copy : Position) : Prop :=
  place.line = copy.line + lines

theorem replays_here : Replays lines (ShiftedLine lines) here here := by
  rintro start _ stop first last ⟨asked, ran⟩ copies
  obtain ⟨rfl, rfl, -⟩ := Outcome.done.inj ran
  obtain ⟨rfl, -⟩ := copies.still
  exact ⟨last.place, copies.line, _, run_here last⟩

/-- A reader that looks at a text sees the same if what is read behind the look shows it. -/
theorem replays_look_bind {same : β → γ → Prop} {f : List Char → α} {next : α → Reader β}
    {nextAgain : α → Reader γ}
    (settled : ∀ start result stop first last, (next (f start.rest)).Reads start result stop →
      Cursor.Copies lines start stop first last → f first.rest = f start.rest)
    (nextReplays : ∀ value, Replays lines same (next value) (nextAgain value)) :
    Replays lines same (look f >>= next) (look f >>= nextAgain) := by
  intro start result stop first last read copies
  have readNext := reads_look_bind.mp read
  obtain ⟨found, sameResult, foundRead⟩ := nextReplays _ _ _ _ _ _ readNext copies
  refine ⟨found, sameResult, reads_look_bind.mpr ?_⟩
  rw [settled start result stop first last readNext copies]
  exact foundRead

/-- A look at the next character, in front of something that is taken. -/
theorem replays_lookHead_bind {same : β → γ → Prop} {f : List Char → α} {next : α → Reader β}
    {nextAgain : α → Reader γ} (front : ∀ cs others : List Char, cs.head? = others.head? → f cs = f others)
    (advances : ∀ value, (next value).Advances fun _ => True)
    (nextReplays : ∀ value, Replays lines same (next value) (nextAgain value)) :
    Replays lines same (look f >>= next) (look f >>= nextAgain) := by
  apply replays_look_bind _ nextReplays
  rintro start result stop first last ⟨asked, ran⟩ copies
  exact front _ _ (copies.head? (advances _ _ _ _ _ ran trivial))

theorem reads_attempt {reader : Reader (Option α)} {start stop : Cursor} {found : Option α}
    (read : (attempt reader).Reads start found stop) :
    (found = none ∧ stop = start ∧ ∃ after, reader.Reads start none after)
      ∨ found ≠ none ∧ reader.Reads start found stop := by
  obtain ⟨asked, ran⟩ := read
  simp only [attempt] at ran
  split at ran
  next after asked' inner =>
    obtain ⟨rfl, rfl, rfl⟩ := Outcome.done.inj ran
    exact .inl ⟨rfl, rfl, after, _, inner⟩
  next other =>
    right
    constructor
    · rintro rfl
      exact other _ _ ran
    · exact ⟨asked, ran⟩

/-- What an attempt does not find in a text it may not find in a shorter one. -/
theorem IsReplayed.attempt {reader : Reader (Option α)} (replayed : reader.IsReplayed)
    (refuses : ∀ start stop first, reader.Reads start none stop → first.rest <+: start.rest →
      ∃ last, reader.Reads first none last) : (Reader.attempt reader).IsReplayed := by
  intro lines start found stop first last read copies
  rcases reads_attempt read with ⟨rfl, rfl, after, inner⟩ | ⟨isSome, inner⟩
  · obtain ⟨rfl, shorter⟩ := copies.still
    obtain ⟨further, refused⟩ := refuses _ after last inner shorter
    exact ⟨none, rfl, reads_attempt_none refused⟩
  · obtain ⟨same, rfl, again⟩ := replayed lines _ _ _ _ _ inner copies
    cases found with
    | none => exact absurd rfl isSome
    | some value => exact ⟨some value, rfl, reads_attempt_some again⟩

/-- Two rounds find the same and go on alike. -/
def Round.Matches (good : List α → List β → Prop) (related : σ → τ → Prop) :
    Round σ α → Round τ β → Prop
  | .next found state, .next others further => good found others ∧ related state further
  | .stop found, .stop others => good found others
  | _, _ => False

theorem reads_rounds_stop {step : σ → Reader (Round σ β)}
    {advances : ∀ state, (step state).Advances Round.GoesOn} {state : σ} {start stop : Cursor}
    {found : List β} (read : (step state).Reads start (.stop found) stop) :
    (rounds step advances state).Reads start found stop := by
  obtain ⟨asked, ran⟩ := read
  refine ⟨asked, ?_⟩
  rw [run_rounds, ran]

theorem reads_rounds_next {step : σ → Reader (Round σ β)}
    {advances : ∀ state, (step state).Advances Round.GoesOn} {state further : σ}
    {start middle stop : Cursor} {found others : List β}
    (read : (step state).Reads start (.next found further) middle)
    (later : (rounds step advances further).Reads middle others stop) :
    (rounds step advances state).Reads start (found ++ others) stop := by
  obtain ⟨asked, ran⟩ := read
  obtain ⟨askedLater, ranLater⟩ := later
  refine ⟨asked ++ askedLater, ?_⟩
  rw [run_rounds, ran]
  dsimp only
  rw [ranLater]
  rfl

/-- A loop is replayed round by round. -/
theorem replays_rounds {step : σ → Reader (Round σ α)} {stepAgain : τ → Reader (Round τ β)}
    {advances : ∀ state, (step state).Advances Round.GoesOn}
    {advancesAgain : ∀ state, (stepAgain state).Advances Round.GoesOn}
    {good : List α → List β → Prop} (related : σ → τ → Prop)
    (join : ∀ found others later further, good found others → good later further →
      good (found ++ later) (others ++ further))
    (round : ∀ state copy, related state copy →
      Replays lines (Round.Matches good related) (step state) (stepAgain copy))
    {state : σ} {copy : τ} (holds : related state copy) :
    Replays lines good (rounds step advances state) (rounds stepAgain advancesAgain copy) := by
  rintro start value stop first last ⟨asked, ran⟩ copies
  change runRounds step advances state start = _ at ran
  fun_induction runRounds step advances state start generalizing value asked copy first with
  | case1 => cases ran
  | case2 state start found after earlier result =>
    obtain ⟨rfl, rfl, -⟩ := Outcome.done.inj ran
    obtain ⟨other, same, read⟩ := round state copy holds _ _ _ _ _ ⟨earlier, result⟩ copies
    cases other with
    | next => cases same
    | stop others => exact ⟨others, same, reads_rounds_stop read⟩
  | case3 state start found further middle earlier result ih =>
    obtain ⟨later, askedLater, inner, rfl, -⟩ := Outcome.joined_eq_done ran
    have here := (step state).forward result
    have there := runRounds_forward step advances further middle inner
    obtain ⟨between, copiesHere, copiesThere⟩ := copies.split here there
    obtain ⟨other, same, read⟩ := round state copy holds _ _ _ _ _ ⟨earlier, result⟩ copiesHere
    cases other with
    | stop => cases same
    | next others furtherCopy =>
      obtain ⟨foundSame, stateRelated⟩ := same
      obtain ⟨rest, restSame, restRead⟩ := ih stateRelated _ _ _ copiesThere inner
      exact ⟨others ++ rest, join _ _ _ _ foundSame restSame, reads_rounds_next read restRead⟩

/-- Rounds that find the same values from the same states. -/
theorem isReplayed_rounds {step : σ → Reader (Round σ α)}
    {advances : ∀ state, (step state).Advances Round.GoesOn} (round : ∀ state, (step state).IsReplayed)
    (state : σ) : (rounds step advances state).IsReplayed := by
  intro lines
  apply replays_rounds Eq
  · rintro found _ later _ rfl rfl
    rfl
  · rintro state _ rfl start result stop first last read copies
    obtain ⟨_, rfl, again⟩ := round state lines _ _ _ _ _ read copies
    refine ⟨result, ?_, again⟩
    cases result with
    | next => exact ⟨rfl, rfl⟩
    | stop => exact rfl
  · rfl

end Reader

end ApiDef
