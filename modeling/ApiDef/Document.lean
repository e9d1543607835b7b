import ApiDef.Parser.Document
set_option autoImplicit false

/-!
# Documents

A text is parsed and checked in one go. Soft reading collects the findings on the way. Strict reading
stops at the first one, in the middle of the text, so it never comes to a fault further on.
-/

namespace ApiDef

open Text

/-- What a text contains, and what was found about it. -/
structure Document where
  items : List Item
  findings : List Finding
deriving DecidableEq, Repr

namespace Document

/-- The entities of a document. -/
def entities (document : Document) : List Entity :=
  document.items.map Item.entity

def spans (document : Document) : List Span :=
  document.items.map Item.span

def hasErrors (document : Document) : Bool :=
  document.findings.any Finding.isError

def count (document : Document) (kind : Entity.Kind) : Nat :=
  document.entities.countP fun entity => entity.kind = kind

def entityAt? (document : Document) (position : Position) : Option Entity :=
  (document.items.find? fun item => item.span.contains position).map Item.entity

/-- Reads a text. What is wrong with a path pattern is for `patternFault?` to say. -/
def readWith (patternFault? : String → Option String) (options : Options) (text : String) :
    Except ReadError Document :=
  match (Parser.document options).run (.new patternFault? options) (.start text) with
  | .ok parsed => .ok ⟨parsed.value, parsed.validator.findings⟩
  | .error error => .error error

end Document

def TypeRef.read (text : String) : Except ReadError TypeRef :=
  match (Reader.wholeTypeRef Options.defaultNestingDepth).run (.start text) with
  | .done type _ _ => .ok type
  | .failed fault _ => .error (.fault fault)

end ApiDef
