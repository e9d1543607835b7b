import ApiDef.Cache.Basic
set_option autoImplicit false

/-!
# Hit rates

The share of lookups that were hits, as a number with 53 binary digits, and its text with six
decimals. Both roundings go to the nearest value, and a tie goes to the even one.
-/

namespace ApiDef.Cache

/-- A quotient rounded to the nearest integer; a tie goes to the even one. -/
def roundQuotient (numerator denominator : Nat) : Nat :=
  let whole := numerator / denominator
  let rest := 2 * (numerator % denominator)
  if rest < denominator || (rest = denominator && whole % 2 = 0) then whole else whole + 1

/-- How far a quotient below two is to be shifted so that its integer part has 53 binary digits. -/
def precisionShift (numerator denominator : Nat) : Nat :=
  let shift := 53 + denominator.log2 - numerator.log2
  if numerator * Nat.pow 2 shift < Nat.pow 2 53 * denominator then shift else shift - 1

/-- A number below ten with six decimals, given as its millionfold. -/
def sixDecimals (millionths : Nat) : String :=
  let decimals := toString (millionths % 1000000)
  toString (millionths / 1000000) ++ "."
    ++ String.ofList (List.replicate (6 - decimals.length) '0') ++ decimals

/-- The hit rate of a number of hits among a number of lookups, a million times as large. -/
def millionthsOfHits (hits lookups : Nat) : Nat :=
  if hits = 0 then 0
  else
    let shift := precisionShift hits lookups
    roundQuotient (roundQuotient (hits * Nat.pow 2 shift) lookups * 1000000) (Nat.pow 2 shift)

def hitRate {α : Type} (cache : Cache α) : String :=
  sixDecimals (millionthsOfHits cache.hits (cache.hits + cache.misses))

end ApiDef.Cache
