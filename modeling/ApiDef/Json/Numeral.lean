import ApiDef.Text.Decimal
set_option autoImplicit false

/-!
# Numerals

A JSON number as it is spelled: an optional minus sign, digits without a superfluous zero in front,
an optional fraction and an optional exponent. What a numeral denotes is asked of it separately.
-/

namespace ApiDef.Json

open Text (decimal)

/-- The exponent of a numeral. -/
structure Exponent where
  negative : Bool
  digits : List Char
deriving DecidableEq, Repr

/-- A number as it is spelled. -/
structure Numeral where
  negative : Bool
  whole : List Char
  fraction : Option (List Char)
  exponent : Option Exponent
deriving DecidableEq, Repr

namespace Numeral

/-- A run of digits and what follows it; there must be at least one digit. -/
def digits? (cs : List Char) : Option (List Char × List Char) :=
  let digits := cs.takeWhile Char.isDigit
  if digits.isEmpty then none else some (digits, cs.dropWhile Char.isDigit)

theorem length_of_digits? {cs digits rest : List Char} (found : digits? cs = some (digits, rest)) :
    rest.length < cs.length := by
  unfold digits? at found
  simp only at found
  split at found
  · simp at found
  next nonempty =>
    simp only [Option.some.injEq, Prod.mk.injEq] at found
    obtain ⟨rfl, rfl⟩ := found
    have whole := congrArg List.length (List.takeWhile_append_dropWhile (p := Char.isDigit) (l := cs))
    have positive := List.length_pos_iff.mpr fun empty => nonempty (List.isEmpty_iff.mpr empty)
    rw [List.length_append] at whole
    omega

/-- The digits before the point: a zero stands alone. -/
def whole? (cs : List Char) : Option (List Char × List Char) :=
  match digits? cs with
  | some ('0' :: _ :: _, _) => none
  | found => found

theorem length_of_whole? {cs digits rest : List Char} (found : whole? cs = some (digits, rest)) :
    rest.length < cs.length := by
  unfold whole? at found
  split at found
  · simp at found
  · exact length_of_digits? found

/-- The fraction, when there is a point: then it must have digits. -/
def fraction? : List Char → Option (Option (List Char) × List Char)
  | '.' :: cs => (digits? cs).map fun (digits, rest) => (some digits, rest)
  | cs => some (none, cs)

theorem length_of_fraction? {cs rest : List Char} {fraction : Option (List Char)}
    (found : fraction? cs = some (fraction, rest)) : rest.length ≤ cs.length := by
  unfold fraction? at found
  split at found
  · obtain ⟨⟨digits, others⟩, scanned, same⟩ := Option.map_eq_some_iff.mp found
    simp only [Prod.mk.injEq] at same
    have shorter := length_of_digits? scanned
    rw [← same.2, List.length_cons]
    omega
  · simp only [Option.some.injEq, Prod.mk.injEq] at found
    exact found.2 ▸ Nat.le_refl _

def exponentDigits? (negative : Bool) (cs : List Char) : Option (Option Exponent × List Char) :=
  (digits? cs).map fun (digits, rest) => (some ⟨negative, digits⟩, rest)

theorem length_of_exponentDigits? {negative : Bool} {cs rest : List Char}
    {exponent : Option Exponent} (found : exponentDigits? negative cs = some (exponent, rest)) :
    rest.length < cs.length := by
  obtain ⟨⟨digits, others⟩, scanned, same⟩ := Option.map_eq_some_iff.mp found
  simp only [Prod.mk.injEq] at same
  rw [← same.2]
  exact length_of_digits? scanned

/-- The exponent, when there is its letter: then it must have digits. -/
def exponent? : List Char → Option (Option Exponent × List Char)
  | [] => some (none, [])
  | mark :: cs =>
    if mark = 'e' ∨ mark = 'E' then
      match cs with
      | '-' :: digits => exponentDigits? true digits
      | '+' :: digits => exponentDigits? false digits
      | digits => exponentDigits? false digits
    else some (none, mark :: cs)

theorem length_of_exponent? {cs rest : List Char} {exponent : Option Exponent}
    (found : exponent? cs = some (exponent, rest)) : rest.length ≤ cs.length := by
  unfold exponent? at found
  split at found
  · simp only [Option.some.injEq, Prod.mk.injEq] at found
    simp [← found.2]
  · split at found
    · split at found
      all_goals
        have shorter := length_of_exponentDigits? found
        simp only [List.length_cons] at shorter ⊢
        omega
    · simp only [Option.some.injEq, Prod.mk.injEq] at found
      exact found.2 ▸ Nat.le_refl _

/-- The numeral at the start of a text behind its sign. -/
def unsigned? (negative : Bool) (cs : List Char) : Option (Numeral × List Char) :=
  match whole? cs with
  | none => none
  | some (whole, afterWhole) =>
    match fraction? afterWhole with
    | none => none
    | some (fraction, afterFraction) =>
      (exponent? afterFraction).map fun (exponent, rest) =>
        (⟨negative, whole, fraction, exponent⟩, rest)

theorem length_of_unsigned? {negative : Bool} {cs rest : List Char} {numeral : Numeral}
    (found : unsigned? negative cs = some (numeral, rest)) : rest.length < cs.length := by
  unfold unsigned? at found
  split at found
  · simp at found
  next wholeFound =>
    split at found
    · simp at found
    next fractionFound =>
      obtain ⟨⟨exponent, others⟩, exponentFound, same⟩ := Option.map_eq_some_iff.mp found
      simp only [Prod.mk.injEq] at same
      have first := length_of_whole? wholeFound
      have second := length_of_fraction? fractionFound
      have third := length_of_exponent? exponentFound
      rw [← same.2]
      omega

def scan? : List Char → Option (Numeral × List Char)
  | '-' :: cs => unsigned? true cs
  | cs => unsigned? false cs

theorem length_of_scan? {cs rest : List Char} {numeral : Numeral}
    (found : scan? cs = some (numeral, rest)) : rest.length < cs.length := by
  unfold scan? at found
  split at found
  · have shorter := length_of_unsigned? found
    rw [List.length_cons]
    omega
  · exact length_of_unsigned? found

/-- The integer that is spelled without fraction and exponent; minus zero is none. -/
def integer? (numeral : Numeral) : Option Int :=
  let size := decimal numeral.whole
  if numeral.fraction.isSome || numeral.exponent.isSome then none
  else if numeral.negative then if size = 0 then none else some (-(size : Int))
  else some size

def fractionDigits (numeral : Numeral) : List Char :=
  numeral.fraction.getD []

/-- The power of ten by which the digits are to be multiplied. -/
def scale (numeral : Numeral) : Int :=
  let exponent : Int := match numeral.exponent with
    | none => 0
    | some ⟨true, digits⟩ => -(decimal digits : Int)
    | some ⟨false, digits⟩ => decimal digits
  exponent - numeral.fractionDigits.length

/-- The smallest size that does not round to a finite double-precision number. -/
def doubleBound : Nat := Nat.pow 2 1024 - Nat.pow 2 970

/-- Whether a numeral is too large for a double-precision number. The number of digits decides
unless it is close to that of the bound. -/
def overflows (numeral : Numeral) : Bool :=
  let digits := (numeral.whole ++ numeral.fractionDigits).dropWhile (· = '0')
  let magnitude : Int := digits.length + numeral.scale
  if digits.isEmpty || magnitude < 309 then false
  else if 309 < magnitude then true
  else if 0 ≤ numeral.scale then doubleBound ≤ decimal digits * Nat.pow 10 numeral.scale.toNat
  else doubleBound * Nat.pow 10 (-numeral.scale).toNat ≤ decimal digits

end Numeral

end ApiDef.Json
