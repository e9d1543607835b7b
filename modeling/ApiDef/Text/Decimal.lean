set_option autoImplicit false

/-!
# Decimal digits

What runs of decimal digits denote.
-/

namespace ApiDef.Text

def decimal (digits : List Char) : Nat :=
  digits.foldl (fun total c => total * 10 + (c.toNat - '0'.toNat)) 0

/-- The smallest number that does not fit into 64 bits. -/
def unsignedBound : Nat := 0x10000000000000000

/-- The number that a text denotes when it fits into 64 bits: digits, and a plus sign may stand in
front. -/
def unsigned? (text : String) : Option Nat :=
  let digits := match text.toList with
    | '+' :: rest => rest
    | cs => cs
  if digits.isEmpty || !digits.all Char.isDigit then none
  else
    let value := decimal digits
    if value < unsignedBound then some value else none

end ApiDef.Text
