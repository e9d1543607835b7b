import ApiDef.Check.Validator
import ApiDef.ReadError
import ApiDef.Reader.Basic
set_option autoImplicit false

/-!
# Parsers

A parser takes a value from the front of a text as a reader does, and checks what it takes at once: it
carries a validator along, and where a check stops, the parser stops in the middle of the text. What
needs no checking is taken by readers.
-/

namespace ApiDef

/-- What a parser comes to: a value, the cursor behind it, and the validator after the checks. -/
structure Parsed (α : Type) where
  value : α
  after : Cursor
  validator : Validator

/-- Takes a value from the front of a text, and checks it on the way. -/
structure Parser (α : Type) where
  run : Validator → Cursor → Except ReadError (Parsed α)
  /-- What is left is an end of what there was. -/
  forward : ∀ {validator : Validator} {start : Cursor} {parsed : Parsed α},
    run validator start = .ok parsed → start.Reaches parsed.after

namespace Parser

open Reader (Round)

variable {α β σ : Type}

protected def pure (value : α) : Parser α where
  run validator start := .ok ⟨value, start, validator⟩
  forward := by
    rintro validator start parsed ⟨⟩
    exact .refl start

protected def bind (first : Parser α) (next : α → Parser β) : Parser β where
  run validator start :=
    match first.run validator start with
    | .ok parsed => (next parsed.value).run parsed.validator parsed.after
    | .error error => .error error
  forward := by
    intro validator start parsed same
    split at same
    next middle firstSame => exact (first.forward firstSame).trans ((next _).forward same)
    next => cases same

instance : Monad Parser where
  pure := Parser.pure
  bind := Parser.bind

theorem run_bind (first : Parser α) (next : α → Parser β) (validator : Validator) (start : Cursor) :
    (first >>= next).run validator start =
      match first.run validator start with
      | .ok parsed => (next parsed.value).run parsed.validator parsed.after
      | .error error => .error error := rfl

/-- Takes what a reader takes. The reader raises no questions, so there is nothing to check. -/
def reading (reader : Reader α) : Parser α where
  run validator start :=
    match reader.run start with
    | .done value after _ => .ok ⟨value, after, validator⟩
    | .failed fault _ => .error (.fault fault)
  forward := by
    intro validator start parsed same
    split at same
    next ran =>
      cases same
      exact reader.forward ran
    next => cases same

instance : MonadLift Reader Parser where
  monadLift := reading

/-- Checks something, and stops here if the check does. -/
def check (action : Validator → Except Finding Validator) : Parser Unit where
  run validator start :=
    match action validator with
    | .ok validator => .ok ⟨(), start, validator⟩
    | .error finding => .error (.finding finding)
  forward := by
    intro validator start parsed same
    split at same
    next =>
      cases same
      exact .refl start
    next => cases same

def declare (name : String) : Parser Unit :=
  check fun validator => .ok (validator.declare name)

/-- Whenever the value satisfies a condition, at least one character has been taken. -/
def Advances (parser : Parser α) (when : α → Prop) : Prop :=
  ∀ (validator : Validator) (start : Cursor) (parsed : Parsed α),
    parser.run validator start = .ok parsed → when parsed.value →
      parsed.after.rest.length < start.rest.length

/-- Two parsers advance if one of them does: where the first one may not, the second one must. -/
theorem Advances.bind {first : Parser α} {next : α → Parser β} {atFirst : α → Prop}
    {atEnd : β → Prop} (firstAdvances : first.Advances atFirst)
    (nextAdvances : ∀ value, ¬atFirst value → (next value).Advances atEnd) :
    (first >>= next).Advances atEnd := by
  intro validator start parsed same holds
  rw [run_bind] at same
  split at same
  next middle firstSame =>
    have firstLength := (first.forward firstSame).length_le
    have nextLength := ((next _).forward same).length_le
    by_cases taken : atFirst middle.value
    · have := firstAdvances _ _ _ firstSame taken
      omega
    · have := nextAdvances _ taken _ _ _ same holds
      omega
  next => cases same

/-- It is enough that the second parser advances. -/
theorem Advances.andThen {first : Parser α} {next : α → Parser β} {atEnd : β → Prop}
    (nextAdvances : ∀ value, (next value).Advances atEnd) : (first >>= next).Advances atEnd := by
  have never : first.Advances fun _ => False := fun _ _ _ _ impossible => impossible.elim
  exact never.bind fun value _ => nextAdvances value

theorem advances_pure {value : α} {when : α → Prop} (never : ¬when value) :
    (pure value : Parser α).Advances when := by
  rintro validator start parsed ⟨⟩ holds
  exact absurd holds never

theorem advances_reading {reader : Reader α} {when : α → Prop} (advances : reader.Advances when) :
    (reading reader).Advances when := by
  intro validator start parsed same holds
  simp only [reading] at same
  split at same
  next ran =>
    cases same
    exact advances _ _ _ _ ran holds
  next => cases same

/-- Runs rounds until one stops, and collects what they found. -/
def runRounds (step : σ → Parser (Round σ β))
    (advances : ∀ state, (step state).Advances Round.GoesOn) (state : σ) (validator : Validator)
    (start : Cursor) : Except ReadError (Parsed (List β)) :=
  match _result : (step state).run validator start with
  | .error error => .error error
  | .ok ⟨.stop found, after, checked⟩ => .ok ⟨found, after, checked⟩
  | .ok ⟨.next found further, after, checked⟩ =>
    match runRounds step advances further checked after with
    | .error error => .error error
    | .ok ⟨others, final, last⟩ => .ok ⟨found ++ others, final, last⟩
termination_by start.rest.length
decreasing_by exact advances state _ _ _ _result trivial

theorem runRounds_forward (step : σ → Parser (Round σ β))
    (advances : ∀ state, (step state).Advances Round.GoesOn) (state : σ) (validator : Validator)
    (start : Cursor) {parsed : Parsed (List β)}
    (same : runRounds step advances state validator start = .ok parsed) :
    start.Reaches parsed.after := by
  fun_induction runRounds step advances state validator start generalizing parsed with
  | case1 => cases same
  | case2 state validator start found after checked result =>
    cases same
    exact (step state).forward result
  | case3 => cases same
  | case4 state validator start found further after checked result others final last inner ih =>
    cases same
    have behind := ih inner
    exact ((step state).forward result).trans behind

def rounds (step : σ → Parser (Round σ β))
    (advances : ∀ state, (step state).Advances Round.GoesOn) (state : σ) : Parser (List β) where
  run := runRounds step advances state
  forward := runRounds_forward step advances state _ _

end Parser

end ApiDef
