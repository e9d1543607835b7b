import ApiDef.Text.Blank
set_option autoImplicit false

/-!
# Quoted text

A text is written between double quotes, with a backslash before a quote or a backslash, short
escapes for line feed, carriage return and tab, and four hexadecimal digits for every other control
character. Everything else stands for itself, so the result is always one line.
-/

namespace ApiDef.Text

/-- The lower-case hexadecimal digits of a number below 65536, always four. -/
def fourHexDigits (n : Nat) : List Char :=
  [Nat.digitChar (n / 4096 % 16), Nat.digitChar (n / 256 % 16), Nat.digitChar (n / 16 % 16),
   Nat.digitChar (n % 16)]

def escape (c : Char) : List Char :=
  if c = '"' then ['\\', '"']
  else if c = '\\' then ['\\', '\\']
  else if c = '\n' then ['\\', 'n']
  else if c = '\r' then ['\\', 'r']
  else if c = '\t' then ['\\', 't']
  else if isControl c then '\\' :: 'u' :: fourHexDigits c.toNat
  else [c]

/-- A text between double quotes, character by character. -/
def quoteChars (cs : List Char) : List Char :=
  '"' :: (cs.flatMap escape ++ ['"'])

def quote (text : String) : String :=
  String.ofList (quoteChars text.toList)

end ApiDef.Text
