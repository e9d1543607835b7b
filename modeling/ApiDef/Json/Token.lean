import ApiDef.Json.Numeral
import ApiDef.Text.Literal
set_option autoImplicit false

/-!
# JSON tokens

A text is divided into JSON tokens as far as it goes. Inside a string, an escape may name half of a
surrogate pair: two matching halves are one character, and a string with a lone half is no text,
although its end is still known.
-/

namespace ApiDef.Json

open Text

/-- A token. A string with a lone surrogate has no text. -/
inductive Token where
  | openObject
  | closeObject
  | openArray
  | closeArray
  | colon
  | comma
  | null
  | bool (value : Bool)
  | number (numeral : Numeral)
  | string (text : Option String)
deriving DecidableEq, Repr

/-- The blanks of JSON. -/
def isBlank (c : Char) : Bool :=
  c = ' ' || c = '\n' || c = '\r' || c = '\t'

def isHighSurrogate (code : Nat) : Bool :=
  0xD800 ≤ code && code < 0xDC00

def isLowSurrogate (code : Nat) : Bool :=
  0xDC00 ≤ code && code < 0xE000

def pairedCode (high low : Nat) : Nat :=
  0x10000 + (high - 0xD800) * 0x400 + (low - 0xDC00)

/-- The characters that codes denote, when no surrogate stands alone. -/
def charsOfCodes? : List Nat → Option (List Char)
  | [] => some []
  | code :: rest =>
    match Literal.scalar? code with
    | some c => (charsOfCodes? rest).map (c :: ·)
    | none =>
      match rest with
      | [] => none
      | second :: others =>
        if isHighSurrogate code && isLowSurrogate second then
          (charsOfCodes? others).map (Char.ofNat (pairedCode code second) :: ·)
        else none

/-- The character that a one-letter escape stands for. -/
def shortEscape? (c : Char) : Option Char :=
  if c = '"' ∨ c = '\\' ∨ c = '/' then some c
  else if c = 'b' then some '\x08'
  else if c = 'f' then some '\x0c'
  else if c = 'n' then some '\n'
  else if c = 'r' then some '\r'
  else if c = 't' then some '\t'
  else none

/-- The codes in a string after its opening quote, and what follows its closing quote. -/
def codes? : List Char → Option (List Nat × List Char)
  | [] => none
  | c :: rest =>
    if c = '"' then some ([], rest)
    else if c = '\\' then
      match rest with
      | 'u' :: first :: second :: third :: fourth :: others =>
        match Literal.hexNumber? [first, second, third, fourth] with
        | some code => (codes? others).map fun (codes, after) => (code :: codes, after)
        | none => none
      | escaped :: others =>
        match shortEscape? escaped with
        | some character =>
          (codes? others).map fun (codes, after) => (character.toNat :: codes, after)
        | none => none
      | [] => none
    else if c.toNat < 0x20 then none
    else (codes? rest).map fun (codes, after) => (c.toNat :: codes, after)

theorem length_of_codes? {cs rest : List Char} {codes : List Nat}
    (found : codes? cs = some (codes, rest)) : rest.length < cs.length := by
  fun_induction codes? cs generalizing codes
  all_goals
    simp only [Option.map_eq_some_iff, Option.some.injEq, Prod.mk.injEq, reduceCtorEq,
      Prod.exists] at found
  case case2 => simp [found.2]
  all_goals
    obtain ⟨inner, after, scanned, -, rfl⟩ := found
    rename_i shorter
    have shorter := shorter scanned
    simp only [List.length_cons]
    omega

/-- The token at the start of a text, and the rest. -/
def token? : List Char → Option (Token × List Char)
  | [] => none
  | 'n' :: 'u' :: 'l' :: 'l' :: rest => some (.null, rest)
  | 't' :: 'r' :: 'u' :: 'e' :: rest => some (.bool true, rest)
  | 'f' :: 'a' :: 'l' :: 's' :: 'e' :: rest => some (.bool false, rest)
  | c :: rest =>
    if c = '{' then some (.openObject, rest)
    else if c = '}' then some (.closeObject, rest)
    else if c = '[' then some (.openArray, rest)
    else if c = ']' then some (.closeArray, rest)
    else if c = ':' then some (.colon, rest)
    else if c = ',' then some (.comma, rest)
    else if c = '"' then
      (codes? rest).map fun (codes, after) =>
        (.string ((charsOfCodes? codes).map String.ofList), after)
    else (Numeral.scan? (c :: rest)).map fun (numeral, after) => (.number numeral, after)

theorem length_of_token? {cs rest : List Char} {token : Token}
    (found : token? cs = some (token, rest)) : rest.length < cs.length := by
  unfold token? at found
  repeat' split at found
  all_goals
    first
      | (simp only [Option.some.injEq, Prod.mk.injEq] at found
         rw [← found.2]
         simp only [List.length_cons]
         omega)
      | (simp at found; done)
      | (obtain ⟨⟨codes, after⟩, scanned, same⟩ := Option.map_eq_some_iff.mp found
         simp only [Prod.mk.injEq] at same
         have shorter := length_of_codes? scanned
         rw [← same.2, List.length_cons]
         omega)
      | (obtain ⟨⟨numeral, after⟩, scanned, same⟩ := Option.map_eq_some_iff.mp found
         simp only [Prod.mk.injEq] at same
         have shorter := Numeral.length_of_scan? scanned
         rw [← same.2]
         exact shorter)

/-- The tokens of a text, and whether they reach its end. -/
def tokens : List Char → List Token × Bool
  | [] => ([], true)
  | c :: rest =>
    if isBlank c then tokens rest
    else
      match _scanned : token? (c :: rest) with
      | none => ([], false)
      | some (token, after) =>
        let (others, complete) := tokens after
        (token :: others, complete)
termination_by cs => cs.length
decreasing_by
  · simp
  · exact length_of_token? _scanned

end ApiDef.Json
