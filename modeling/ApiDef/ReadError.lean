import ApiDef.Check.Finding
import ApiDef.Reader.Fault
set_option autoImplicit false

/-!
# Read errors

Why a text gives no document: a fault of the text itself, or a finding that stopped the reading.
-/

namespace ApiDef

open Text

/-- The three kinds of errors. -/
inductive ErrorKind where
  /-- The text breaks the grammar, or uses a construct that is not allowed. -/
  | grammar
  /-- The text is well formed, and a finding stopped the reading. -/
  | semantic
  /-- The nesting limit was exceeded. -/
  | security
deriving DecidableEq, Repr

namespace ErrorKind

def label : ErrorKind → String
  | grammar => "SyntaxError"
  | semantic => "SemanticError"
  | security => "SecurityError"

def describe (kind : ErrorKind) (place : Position) (message : String) : String :=
  kind.label ++ " at " ++ place.text ++ ": " ++ message

end ErrorKind

/-- Why a text gives no document. -/
inductive ReadError where
  | fault (fault : Fault)
  | finding (finding : Finding)
deriving DecidableEq, Repr

namespace ReadError

/-- The kind of an error: a nesting limit is a matter of security, any other fault one of grammar. -/
def kind : ReadError → ErrorKind
  | fault ⟨.tooDeep _, _⟩ => .security
  | fault _ => .grammar
  | finding _ => .semantic

def message : ReadError → String
  | fault found => found.cause.message
  | finding found => found.message

def place : ReadError → Span
  | fault found => found.place
  | finding found => found.place

def text (error : ReadError) : String :=
  error.kind.describe error.place.start error.message

end ReadError

end ApiDef
