import ApiDef.Check.Question
import ApiDef.Reader.Fault
set_option autoImplicit false

/-!
# Readers

A reader takes a value from the front of a text and leaves the rest. It may fail, and either way it
has asked questions on its way. No reader goes back: this law is part of the type, so every reader
that is put together from others obeys it. Loops are written with `rounds`, which ends because each
further round has taken at least one character.
-/

namespace ApiDef

open Text

/-- A place in a text together with the text from there on. -/
structure Cursor where
  rest : List Char
  place : Position
deriving DecidableEq, Repr

namespace Cursor

def start (text : String) : Cursor := ⟨text.toList, .origin⟩

/-- The cursor behind `passed`, in front of `rest`. -/
def pass (cursor : Cursor) (passed rest : List Char) : Cursor :=
  ⟨rest, cursor.place.advanceOver passed⟩

/-- The span of the next character; at the end of the text, the empty span there. -/
def nextSpan (cursor : Cursor) : Span :=
  match cursor.rest with
  | [] => .point cursor.place
  | c :: _ => ⟨cursor.place, cursor.place.advance c⟩

/-- One cursor stands behind another one or at the same place of the same text. -/
def Reaches (first second : Cursor) : Prop :=
  ∃ passed, first.rest = passed ++ second.rest ∧
    second.place = first.place.advanceOver passed

theorem Reaches.refl (cursor : Cursor) : cursor.Reaches cursor := ⟨[], rfl, rfl⟩

theorem Reaches.trans {first second third : Cursor} (here : first.Reaches second)
    (there : second.Reaches third) : first.Reaches third := by
  obtain ⟨passed, restSame, placeSame⟩ := here
  obtain ⟨further, furtherRest, furtherPlace⟩ := there
  refine ⟨passed ++ further, ?_, ?_⟩
  · rw [restSame, furtherRest, List.append_assoc]
  · rw [furtherPlace, placeSame, Position.advanceOver_append]

theorem reaches_pass {cursor : Cursor} {passed rest : List Char}
    (split : passed ++ rest = cursor.rest) : cursor.Reaches (cursor.pass passed rest) :=
  ⟨passed, split.symm, rfl⟩

theorem Reaches.length_le {first second : Cursor} (reaches : first.Reaches second) :
    second.rest.length ≤ first.rest.length := by
  obtain ⟨passed, same, -⟩ := reaches
  rw [same, List.length_append]
  omega

end Cursor

/-- What a reader comes to. -/
inductive Outcome (α : Type) where
  /-- A value, the cursor behind it, and the questions asked. -/
  | done (value : α) (after : Cursor) (asked : List Question)
  /-- A fault, and the questions asked before it. -/
  | failed (fault : Fault) (asked : List Question)
deriving Repr

namespace Outcome

def asking {α : Type} (earlier : List Question) : Outcome α → Outcome α
  | done value after asked => done value after (earlier ++ asked)
  | failed fault asked => failed fault (earlier ++ asked)

def map {α β : Type} (f : α → β) : Outcome α → Outcome β
  | done value after asked => done (f value) after asked
  | failed fault asked => failed fault asked

def asked {α : Type} : Outcome α → List Question
  | done _ _ asked => asked
  | failed _ asked => asked

@[simp] theorem asked_map {α β : Type} (f : α → β) (outcome : Outcome α) :
    (outcome.map f).asked = outcome.asked := by
  cases outcome <;> rfl

@[simp] theorem asking_nil {α : Type} (outcome : Outcome α) : outcome.asking [] = outcome := by
  cases outcome <;> rfl

@[simp] theorem asking_asking {α : Type} (first second : List Question) (outcome : Outcome α) :
    (outcome.asking second).asking first = outcome.asking (first ++ second) := by
  cases outcome <;> simp [asking]

theorem asking_eq_done {α : Type} {earlier asked : List Question} {outcome : Outcome α} {value : α}
    {after : Cursor} (same : outcome.asking earlier = .done value after asked) :
    ∃ later, outcome = .done value after later ∧ asked = earlier ++ later := by
  cases outcome with
  | done =>
    simp only [asking, done.injEq] at same
    obtain ⟨rfl, rfl, rfl⟩ := same
    exact ⟨_, rfl, rfl⟩
  | failed => simp [asking] at same

theorem joined_eq_done {α : Type} {earlier asked : List Question} {found value : List α}
    {outcome : Outcome (List α)} {after : Cursor}
    (same : (outcome.asking earlier).map (found ++ ·) = .done value after asked) :
    ∃ others later, outcome = .done others after later ∧ value = found ++ others
      ∧ asked = earlier ++ later := by
  cases outcome with
  | done =>
    simp only [asking, map, done.injEq] at same
    obtain ⟨rfl, rfl, rfl⟩ := same
    exact ⟨_, _, rfl, rfl, rfl⟩
  | failed => simp [asking, map] at same

end Outcome

/-- Takes a value from the front of a text. -/
structure Reader (α : Type) where
  run : Cursor → Outcome α
  /-- What is left is an end of what there was, and its place is counted from there. -/
  forward : ∀ {start : Cursor} {value : α} {after : Cursor} {asked : List Question},
    run start = .done value after asked → start.Reaches after

namespace Reader

variable {α β σ : Type}

@[ext] theorem ext {left right : Reader α} (same : ∀ start, left.run start = right.run start) :
    left = right := by
  cases left; cases right
  simp only [mk.injEq]
  exact funext same

/-- Takes nothing. -/
protected def pure (value : α) : Reader α where
  run start := .done value start []
  forward := by
    rintro start value after asked ⟨⟩
    exact .refl start

/-- Reads on with what the value of the first reader decides. -/
protected def bind (first : Reader α) (next : α → Reader β) : Reader β where
  run start :=
    match first.run start with
    | .done value after asked => ((next value).run after).asking asked
    | .failed fault asked => .failed fault asked
  forward := by
    intro start value after asked same
    split at same
    next value' middle _ firstSame =>
      obtain ⟨later, nextSame, -⟩ := Outcome.asking_eq_done same
      exact (first.forward firstSame).trans ((next _).forward nextSame)
    next => simp at same

instance : Monad Reader where
  pure := Reader.pure
  bind := Reader.bind

@[simp] theorem run_pure (value : α) (start : Cursor) :
    (pure value : Reader α).run start = .done value start [] := rfl

theorem run_bind (first : Reader α) (next : α → Reader β) (start : Cursor) :
    (first >>= next).run start =
      match first.run start with
      | .done value after asked => ((next value).run after).asking asked
      | .failed fault asked => .failed fault asked := rfl

instance : LawfulMonad Reader := LawfulMonad.mk' Reader
  (by
    intro α reader
    ext start
    change (reader >>= fun value => pure (id value)).run start = _
    rw [run_bind]
    cases reader.run start <;> simp [Outcome.asking])
  (by
    intro α β value next
    ext start
    simp [run_bind])
  (by
    intro α β γ reader next further
    ext start
    simp only [run_bind]
    cases reader.run start with
    | failed => rfl
    | done value after asked =>
      dsimp only
      cases (next value).run after with
      | failed => rfl
      | done => exact (Outcome.asking_asking _ _ _).symm)

def fail (cause : Fault.Cause) : Reader α where
  run start := .failed ⟨cause, start.nextSpan⟩ []
  forward := by
    intro _ _ _ _ same
    simp at same

def failAt (place : Span) (cause : Fault.Cause) : Reader α where
  run _ := .failed ⟨cause, place⟩ []
  forward := by
    intro _ _ _ _ same
    simp at same

/-- Stops because the next character is none of what is expected. -/
def unexpected (expected : List Expected) : Reader α where
  run start := .failed ⟨.unexpected expected start.rest.head?, start.nextSpan⟩ []
  forward := by
    intro _ _ _ _ same
    simp at same

def ask (question : Question) : Reader Unit where
  run start := .done () start [question]
  forward := by
    rintro start value after asked ⟨⟩
    exact .refl start

def here : Reader Position where
  run start := .done start.place start []
  forward := by
    rintro start value after asked ⟨⟩
    exact .refl start

def look (f : List Char → α) : Reader α where
  run start := .done (f start.rest) start []
  forward := by
    rintro start value after asked ⟨⟩
    exact .refl start

def lookingAt (c : Char) : Reader Bool :=
  look fun rest => rest.head? = some c

/-- Takes characters as long as they satisfy a condition. -/
def takeWhile (p : Char → Bool) : Reader (List Char) where
  run start :=
    let passed := start.rest.takeWhile p
    .done passed (start.pass passed (start.rest.dropWhile p)) []
  forward := by
    rintro start value after asked ⟨⟩
    exact Cursor.reaches_pass List.takeWhile_append_dropWhile

/-- Takes the given characters if they stand here, and says whether they did. -/
def eatText (text : List Char) : Reader Bool where
  run start :=
    if text.isPrefixOf start.rest then
      .done true (start.pass text (start.rest.drop text.length)) []
    else .done false start []
  forward := by
    intro start value after asked same
    split at same
    next found =>
      simp only [Outcome.done.injEq] at same
      obtain ⟨-, rfl, -⟩ := same
      obtain ⟨rest, whole⟩ := List.isPrefixOf_iff_prefix.mp found
      refine Cursor.reaches_pass ?_
      rw [← whole, List.drop_left]
    next =>
      simp only [Outcome.done.injEq] at same
      obtain ⟨-, rfl, -⟩ := same
      exact .refl start

/-- Takes one given character if it stands here, and says whether it did. -/
def eat (c : Char) : Reader Bool := eatText [c]

/-- Takes one given character, which must stand here. -/
def require (c : Char) : Reader Unit := do
  if ← eat c then pure () else unexpected [.mark (String.singleton c)]

/-- Tries a reader; if it comes to nothing, the cursor stays where it was. -/
def attempt (reader : Reader (Option α)) : Reader (Option α) where
  run start :=
    match reader.run start with
    | .done none _ asked => .done none start asked
    | outcome => outcome
  forward := by
    intro start value after asked same
    split at same
    next =>
      simp only [Outcome.done.injEq] at same
      obtain ⟨-, rfl, -⟩ := same
      exact .refl start
    next => exact reader.forward same

/-- Whenever the value satisfies a condition, at least one character has been taken. -/
def Advances (reader : Reader α) (when : α → Prop) : Prop :=
  ∀ (start : Cursor) (value : α) (after : Cursor) (asked : List Question),
    reader.run start = .done value after asked → when value →
      after.rest.length < start.rest.length

theorem advances_false (reader : Reader α) : reader.Advances fun _ => False :=
  fun _ _ _ _ _ impossible => impossible.elim

/-- Two readers advance if one of them does: where the first one may not, the second one must. -/
theorem Advances.bind {first : Reader α} {next : α → Reader β} {atFirst : α → Prop}
    {atEnd : β → Prop} (firstAdvances : first.Advances atFirst)
    (nextAdvances : ∀ value, ¬atFirst value → (next value).Advances atEnd) :
    (first >>= next).Advances atEnd := by
  intro start value after asked same holds
  rw [run_bind] at same
  split at same
  next found middle _ firstSame =>
    obtain ⟨later, nextSame, -⟩ := Outcome.asking_eq_done same
    have firstLength := (first.forward firstSame).length_le
    have nextLength := ((next _).forward nextSame).length_le
    by_cases taken : atFirst found
    · have := firstAdvances _ _ _ _ firstSame taken
      omega
    · have := nextAdvances _ taken _ _ _ _ nextSame holds
      omega
  next => simp at same

/-- It is enough that the second reader advances. -/
theorem Advances.andThen {first : Reader α} {next : α → Reader β} {atEnd : β → Prop}
    (nextAdvances : ∀ value, (next value).Advances atEnd) : (first >>= next).Advances atEnd :=
  (advances_false first).bind fun value _ => nextAdvances value

theorem advances_pure {value : α} {when : α → Prop} (never : ¬when value) :
    (pure value : Reader α).Advances when := by
  intro start value after asked same holds
  simp only [run_pure, Outcome.done.injEq] at same
  exact absurd (same.1 ▸ holds) never

theorem advances_fail {cause : Fault.Cause} {when : α → Prop} :
    (fail cause : Reader α).Advances when := by
  intro start value after asked same
  simp [fail] at same

theorem advances_unexpected {expected : List Expected} {when : α → Prop} :
    (unexpected expected : Reader α).Advances when := by
  intro start value after asked same
  simp [unexpected] at same

/-- Characters that were there have been taken. -/
theorem advances_eatText {text : List Char} (nonempty : text ≠ []) :
    (eatText text).Advances (· = true) := by
  intro start value after asked same holds
  simp only [eatText] at same
  split at same
  next found =>
    simp only [Outcome.done.injEq] at same
    obtain ⟨-, rfl, -⟩ := same
    obtain ⟨rest, whole⟩ := List.isPrefixOf_iff_prefix.mp found
    have := List.length_pos_iff.mpr nonempty
    simp only [Cursor.pass, ← whole, List.drop_left, List.length_append]
    omega
  next =>
    simp only [Outcome.done.injEq] at same
    exact absurd (same.1.trans holds) Bool.false_ne_true

theorem advances_eat (c : Char) : (eat c).Advances (· = true) :=
  advances_eatText (List.cons_ne_nil c [])

/-- The end of a round: go on with a state, or stop. Either way the round has found something. -/
inductive Round (σ β : Type) where
  | next (found : List β) (state : σ)
  | stop (found : List β)
deriving Repr

def Round.GoesOn : Round σ β → Prop
  | .next _ _ => True
  | .stop _ => False

/-- Runs rounds until one stops, and collects what they found. -/
def runRounds (step : σ → Reader (Round σ β))
    (advances : ∀ state, (step state).Advances Round.GoesOn) (state : σ) (start : Cursor) :
    Outcome (List β) :=
  match _result : (step state).run start with
  | .failed fault asked => .failed fault asked
  | .done (.stop found) after asked => .done found after asked
  | .done (.next found further) after asked =>
    ((runRounds step advances further after).asking asked).map (found ++ ·)
termination_by start.rest.length
decreasing_by exact advances state _ _ _ _ _result trivial

theorem runRounds_forward (step : σ → Reader (Round σ β))
    (advances : ∀ state, (step state).Advances Round.GoesOn) (state : σ) (start : Cursor)
    {value : List β} {after : Cursor} {asked : List Question}
    (same : runRounds step advances state start = .done value after asked) :
    start.Reaches after := by
  fun_induction runRounds step advances state start generalizing value asked with
  | case1 => simp at same
  | case2 state start found middle asked' result =>
    simp only [Outcome.done.injEq] at same
    obtain ⟨-, rfl, -⟩ := same
    exact (step state).forward result
  | case3 state start found further middle asked' result ih =>
    obtain ⟨others, later, inner, -, -⟩ := Outcome.joined_eq_done same
    exact ((step state).forward result).trans (ih inner)

def rounds (step : σ → Reader (Round σ β))
    (advances : ∀ state, (step state).Advances Round.GoesOn) (state : σ) : Reader (List β) where
  run start := runRounds step advances state start
  forward := runRounds_forward step advances state _

/-- A reader that always takes at least one character. -/
structure Advancing (α : Type) extends Reader α where
  advances : toReader.Advances fun _ => True

end Reader

end ApiDef
