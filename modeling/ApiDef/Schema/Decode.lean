import ApiDef.Json.Decode
import ApiDef.Schema.Encode
set_option autoImplicit false

/-!
# Reading schemas

Schemas are read from JSON drafts. Shapes and types are kept whole before they are looked into, so
their text must be JSON to their end before anything else about them counts.
-/

namespace ApiDef

open Json (Draft Decoded)
open Json.Draft

/-- The value of a key that occurs exactly once. -/
def Json.Draft.single? (key : String) (members : List (Option String × Draft)) : Option Draft :=
  match members.filter fun member => member.1 = some key with
  | [(_, value)] => some value
  | _ => none

namespace Shape

def isListWord : Draft → Bool
  | string (some word) => word = "array"
  | object [(some word, null)] true => word = "array"
  | _ => false

/-- The shape that a draft gives, when it has one of the forms of a shape. Of several forms, the
reference counts. -/
def ofDraft? : Nat → Draft → Option Shape
  | _, string (some name) => some (primitive name)
  | levels + 1, object members _ =>
    match single? "$ref" members with
    | some (string (some target)) => some (reference target)
    | _ =>
      match single? "type" members, single? "items" members with
      | some word, some element =>
        if isListWord word then (ofDraft? levels element).map list else none
      | _, _ => none
  | _, _ => none

def decode (levels : Nat) (draft : Draft) : Decoded Shape :=
  if draft.isTidy levels then
    match ofDraft? levels draft with
    | some shape => .ok shape
    | none => .error .noShape
  else .error .malformed

def read (text : String) : Decoded Shape := Json.read decode text

end Shape

namespace Bag

def readIntegers (text : String) : Decoded (Bag Int) :=
  Bag.ofList <$> Json.read (asMembers fun _ => asInteger) text

end Bag

namespace Schema

/-- Reads a text. -/
def decodeText (_ : Nat) (draft : Draft) : Decoded String := asText draft

/-- What has been read of a tag. -/
structure TagParts where
  name : Option String
  arguments : Option (List String)
  options : Option OptionTable

def TagParts.take (levels : Nat) (parts : TagParts) (key : String) (value : Draft) :
    Decoded TagParts :=
  match key with
  | "type" => return { parts with name := ← once key parts.name (asText value) }
  | "arguments" =>
    return { parts with
      arguments := ← once key parts.arguments (asList decodeText levels value) }
  | "options" =>
    return { parts with
      options := ← once key parts.options
        (OptionTable.ofList <$> asMembers decodeText levels value) }
  | _ => pass value parts

def TagParts.finish (given : Given) (parts : TagParts) : Decoded Tag := do
  return ⟨← given.require "type" parts.name, parts.arguments.getD [], parts.options.getD ∅⟩

def decodeTag : Nat → Draft → Decoded Tag :=
  asRecord ["type", "arguments", "options"] ⟨none, none, none⟩ TagParts.take TagParts.finish

def decodeTags : Nat → Draft → Decoded (List Tag) := asList decodeTag

/-- What has been read of a member. -/
structure MemberDraft where
  shape : Option Shape
  description : Option (Option String)
  defaultValue : Option (Option String)
  tags : Option (List Tag)
  members : Option (Option (Bag Member))

/-- Takes in a member of a member, where `decodeBag` reads what it contains. -/
def MemberDraft.take (decodeBag : Draft → Decoded (Bag Member)) (levels : Nat)
    (parts : MemberDraft) (key : String) (value : Draft) : Decoded MemberDraft :=
  match key with
  | "type" => return { parts with shape := ← once key parts.shape (Shape.decode levels value) }
  | "description" =>
    return { parts with
      description := ← once key parts.description (asOptional asText value) }
  | "defaultValue" =>
    return { parts with
      defaultValue := ← once key parts.defaultValue (asOptional asText value) }
  | "annotations" => return { parts with tags := ← once key parts.tags (decodeTags levels value) }
  | "properties" =>
    return { parts with members := ← once key parts.members (asOptional decodeBag value) }
  | _ => pass value parts

def MemberDraft.finish (given : Given) (parts : MemberDraft) : Decoded Member := do
  return .ofParts
    ⟨← given.require "type" parts.shape, parts.description.getD none,
      parts.defaultValue.getD none, parts.tags.getD []⟩
    (parts.members.getD none)

mutual

def decodeMember : Nat → Draft → Decoded Member
  | 0, _ => .error .malformed
  | levels + 1, draft =>
    recordOf ["type", "description", "defaultValue", "annotations", "properties"]
      ⟨none, none, none, none, none⟩ (MemberDraft.take (decodeMembers levels) levels)
      MemberDraft.finish draft

def decodeMembers : Nat → Draft → Decoded (Bag Member)
  | 0, _ => .error .malformed
  | levels + 1, draft => Bag.ofList <$> membersOf (decodeMember levels) draft

end

/-- What has been read of a record. -/
structure RecordDraft where
  name : Option String
  description : Option (Option String)
  tags : Option (List Tag)
  members : Option (Bag Member)

def RecordDraft.take (levels : Nat) (parts : RecordDraft) (key : String) (value : Draft) :
    Decoded RecordDraft :=
  match key with
  | "name" => return { parts with name := ← once key parts.name (asText value) }
  | "description" =>
    return { parts with
      description := ← once key parts.description (asOptional asText value) }
  | "annotations" => return { parts with tags := ← once key parts.tags (decodeTags levels value) }
  | "properties" =>
    return { parts with members := ← once key parts.members (decodeMembers levels value) }
  | _ => pass value parts

def RecordDraft.finish (given : Given) (parts : RecordDraft) : Decoded TypeEntry := do
  return .record
    ⟨← given.require "name" parts.name, parts.description.getD none, parts.tags.getD [],
      parts.members.getD ∅⟩

/-- What has been read of an enumeration. -/
structure EnumerationDraft where
  name : Option String
  description : Option (Option String)
  tags : Option (List Tag)
  values : Option (List String)

def EnumerationDraft.take (levels : Nat) (parts : EnumerationDraft) (key : String)
    (value : Draft) : Decoded EnumerationDraft :=
  match key with
  | "name" => return { parts with name := ← once key parts.name (asText value) }
  | "description" =>
    return { parts with
      description := ← once key parts.description (asOptional asText value) }
  | "annotations" => return { parts with tags := ← once key parts.tags (decodeTags levels value) }
  | "values" =>
    return { parts with values := ← once key parts.values (asList decodeText levels value) }
  | _ => pass value parts

def EnumerationDraft.finish (given : Given) (parts : EnumerationDraft) :
    Decoded TypeEntry := do
  return .enumeration
    ⟨← given.require "name" parts.name, parts.description.getD none, parts.tags.getD [],
      parts.values.getD []⟩

/-- The two kinds of types. -/
inductive TypeKind where
  | record
  | enumeration
deriving DecidableEq, Repr

def kindWords : List (String × TypeKind) :=
  [(recordWord, .record), (enumerationWord, .enumeration)]

def decodeKind : Draft → Decoded TypeKind
  | string (some word) => chosen kindWords word
  | _ => .error .malformed

/-- Looks for the kind among the members of a type; the others are kept whole. -/
def takeKind (levels : Nat) (found : Option TypeKind) (member : Option String × Draft) :
    Decoded (Option TypeKind) := do
  let key ← keyText member.1
  if key = "type" then once key found (decodeKind member.2)
  else if member.2.isTidy levels then return found
  else .error .malformed

def decodeBody (levels : Nat) (kind : TypeKind) : Draft → Decoded TypeEntry :=
  match kind with
  | .record =>
    recordOf ["name", "description", "annotations", "properties"] ⟨none, none, none, none⟩
      (RecordDraft.take levels) RecordDraft.finish
  | .enumeration =>
    recordOf ["name", "description", "annotations", "values"] ⟨none, none, none, none⟩
      (EnumerationDraft.take levels) EnumerationDraft.finish

/-- Reads a type. As an array it begins with its kind. -/
def decodeType : Nat → Draft → Decoded TypeEntry
  | levels + 1, object members closed => do
    let found ← members.foldlM (takeKind levels) none
    match ← ifClosed closed found with
    | none => .error (.missing "type")
    | some kind =>
      decodeBody levels kind
        (object (members.filter fun member => member.1 ≠ some "type") closed)
  | _ + 1, array [] closed => do
    ifClosed closed ()
    .error (.missing "type")
  | levels + 1, array (word :: fields) closed => do
    let kind ← decodeKind word
    let fields ← ifClosed (fields.all (isTidy levels) && closed) fields
    decodeBody levels kind (array fields closed)
  | _, _ => .error .malformed

/-- What has been read of an argument. -/
structure ArgumentDraft where
  shape : Option Shape
  transport : Option Transport
  identifier : Option (Option String)
  isOptional : Option Bool
  tags : Option (List Tag)

def ArgumentDraft.take (levels : Nat) (parts : ArgumentDraft) (key : String) (value : Draft) :
    Decoded ArgumentDraft :=
  match key with
  | "type" => return { parts with shape := ← once key parts.shape (Shape.decode levels value) }
  | "transport" =>
    return { parts with
      transport := ← once key parts.transport (asChoice transportWords levels value) }
  | "id" =>
    return { parts with identifier := ← once key parts.identifier (asOptional asText value) }
  | "optional" =>
    return { parts with isOptional := ← once key parts.isOptional (asBool value) }
  | "annotations" => return { parts with tags := ← once key parts.tags (decodeTags levels value) }
  | _ => pass value parts

def ArgumentDraft.finish (given : Given) (parts : ArgumentDraft) : Decoded Argument := do
  return ⟨← given.require "type" parts.shape, parts.transport.getD .fallback,
    parts.identifier.getD none, parts.isOptional.getD false, parts.tags.getD []⟩

def decodeArgument : Nat → Draft → Decoded Argument :=
  asRecord ["type", "transport", "id", "optional", "annotations"] ⟨none, none, none, none, none⟩
    ArgumentDraft.take ArgumentDraft.finish

/-- What has been read of an operation. -/
structure OperationDraft where
  name : Option String
  description : Option (Option String)
  verb : Option (Option Verb)
  path : Option (Option String)
  arguments : Option (Bag Argument)
  response : Option Shape
  tags : Option (List Tag)

def OperationDraft.take (levels : Nat) (parts : OperationDraft) (key : String) (value : Draft) :
    Decoded OperationDraft :=
  match key with
  | "name" => return { parts with name := ← once key parts.name (asText value) }
  | "description" =>
    return { parts with
      description := ← once key parts.description (asOptional asText value) }
  | "method" =>
    return { parts with
      verb := ← once key parts.verb (asOptional (asChoice verbWords levels) value) }
  | "path" => return { parts with path := ← once key parts.path (asOptional asText value) }
  | "arguments" =>
    return { parts with
      arguments := ← once key parts.arguments
        (Bag.ofList <$> asMembers decodeArgument levels value) }
  | "responseType" =>
    return { parts with response := ← once key parts.response (Shape.decode levels value) }
  | "annotations" => return { parts with tags := ← once key parts.tags (decodeTags levels value) }
  | _ => pass value parts

def OperationDraft.finish (given : Given) (parts : OperationDraft) : Decoded Operation := do
  return ⟨← given.require "name" parts.name, parts.description.getD none,
    parts.verb.getD none, parts.path.getD none, parts.arguments.getD ∅,
    ← given.require "responseType" parts.response, parts.tags.getD []⟩

def decodeOperation : Nat → Draft → Decoded Operation :=
  asRecord
    ["name", "description", "method", "path", "arguments", "responseType", "annotations"]
    ⟨none, none, none, none, none, none, none⟩ OperationDraft.take OperationDraft.finish

/-- What has been read of a schema. -/
structure SchemaDraft where
  types : Option (List TypeEntry)
  operations : Option (List Operation)

def SchemaDraft.take (levels : Nat) (parts : SchemaDraft) (key : String) (value : Draft) :
    Decoded SchemaDraft :=
  match key with
  | "types" =>
    return { parts with types := ← once key parts.types (asList decodeType levels value) }
  | "methods" =>
    return { parts with
      operations := ← once key parts.operations (asList decodeOperation levels value) }
  | _ => pass value parts

def decode : Nat → Draft → Decoded Schema :=
  asRecord ["types", "methods"] ⟨none, none⟩ SchemaDraft.take fun _ parts =>
    .ok ⟨parts.types.getD [], parts.operations.getD []⟩

def read (text : String) : Decoded Schema := Json.read decode text

end Schema

end ApiDef
