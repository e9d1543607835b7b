import ApiDef.Text.Position
import ApiDef.Text.Quoted
set_option autoImplicit false

/-!
# Faults

Why a text cannot be read, and where.
-/

namespace ApiDef

open Text

/-- What the grammar would have allowed. -/
inductive Expected where
  /-- Exactly these characters. -/
  | mark (text : String)
  | character
  | comment
  | digit
  | endOfInput
  | escapeSequence
  | identifier
  | number
  | string
deriving DecidableEq, Repr

def Expected.openBrace : Expected := .mark "\x7b"

def Expected.closeBrace : Expected := .mark "\x7d"

def Expected.text : Expected → String
  | mark text => quote text
  | character => "character"
  | comment => "comment"
  | digit => "digit"
  | endOfInput => "end of input"
  | escapeSequence => "escape sequence"
  | identifier => "identifier"
  | number => "number"
  | string => "string"

namespace Fault

/-- Joins alternatives: `a`, `a or b`, `a, b, or c`. -/
def alternatives : List String → String
  | [] => "nothing"
  | [one] => one
  | [first, second] => first ++ " or " ++ second
  | many => String.intercalate ", " many.dropLast ++ ", or " ++ many.getLast?.getD ""

/-- Why a text cannot be read. -/
inductive Cause where
  /-- Something else stands here, or the text ends. -/
  | unexpected (expected : List Expected) (found : Option Char)
  | enumerationsForbidden
  | dataTypesForbidden
  | methodsForbidden
  /-- Bodies and generic arguments nest deeper than allowed. -/
  | tooDeep (limit : Nat)
deriving DecidableEq, Repr

/-- What a message says about the character that was found. -/
def foundText : Option Char → String
  | some c => quote (String.singleton c)
  | none => Expected.endOfInput.text

def Cause.message : Cause → String
  | unexpected expected found =>
    "Expected " ++ alternatives (expected.map Expected.text) ++ " but " ++ foundText found
      ++ " found."
  | enumerationsForbidden => "Enum definitions not allowed"
  | dataTypesForbidden => "Data type definitions not allowed"
  | methodsForbidden => "Method definitions not allowed"
  | tooDeep limit => s!"Maximum nesting depth of {limit} exceeded"

end Fault

/-- A cause and its place. -/
structure Fault where
  cause : Fault.Cause
  place : Span
deriving DecidableEq, Repr

end ApiDef
