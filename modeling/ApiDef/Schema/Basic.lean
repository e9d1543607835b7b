import ApiDef.Rest.Verb
import ApiDef.Schema.Bag
import ApiDef.Schema.Shape
set_option autoImplicit false

/-!
# Schemas

A schema describes types and operations for programs that know nothing of the definition language.
It has no comments, its types stand before its operations, and verbs and transports are values of
their own instead of tags.
-/

namespace ApiDef

namespace Schema

/-- A member of a record, apart from what it contains. -/
structure MemberParts where
  shape : Shape
  description : Option String
  defaultValue : Option String
  tags : List Tag
deriving DecidableEq, Repr, Inhabited

/-- A member of a record. An inline object has members of its own. -/
inductive Member where
  | plain (parts : MemberParts)
  | inline (parts : MemberParts) (members : Bag Member)
deriving Inhabited

namespace Member

def parts : Member → MemberParts
  | plain parts => parts
  | inline parts _ => parts

def members? : Member → Option (Bag Member)
  | plain _ => none
  | inline _ members => some members

def ofParts (parts : MemberParts) : Option (Bag Member) → Member
  | none => plain parts
  | some members => inline parts members

end Member

/-- A structure with named members. -/
structure Record where
  name : String
  description : Option String
  tags : List Tag
  members : Bag Member
deriving Inhabited

/-- A type of a schema. -/
inductive TypeEntry where
  | record (declared : Record)
  | enumeration (declared : Enumeration)
deriving Inhabited

def TypeEntry.name : TypeEntry → String
  | record declared => declared.name
  | enumeration declared => declared.name

/-- An argument of an operation. Its identifier is the name under which the transport carries it,
when that is not its own name. -/
structure Argument where
  shape : Shape
  transport : Transport
  identifier : Option String
  isOptional : Bool
  tags : List Tag
deriving DecidableEq, Repr

/-- An operation. Only an operation with a verb is reached by HTTP. -/
structure Operation where
  name : String
  description : Option String
  verb : Option Verb
  path : Option String
  arguments : Bag Argument
  response : Shape
  tags : List Tag

end Schema

/-- A schema. -/
structure Schema where
  types : List Schema.TypeEntry
  operations : List Schema.Operation
deriving Inhabited

namespace Schema

def type? (schema : Schema) (name : String) : Option TypeEntry :=
  schema.types.find? fun entry => entry.name = name

def operation? (schema : Schema) (name : String) : Option Operation :=
  schema.operations.find? fun operation => operation.name = name

end Schema

end ApiDef
