import ApiDef.Schema.Basic
set_option autoImplicit false

/-!
# Entities and schemas

Entities become a schema and a schema becomes entities. On the way into a schema, comments are
dropped, types come before operations, of several members of one name the last one stays, and the
first tag for a verb or transport becomes a value. On the way back that value becomes the first tag
again.
-/

namespace ApiDef.Schema

/-- The option of a transport tag that makes an argument optional. -/
def optionalKey : String := "optional"

def optionalValue : String := "true"

def partsOfField (field : Field) : MemberParts :=
  ⟨.ofTypeRef field.type, field.description, field.defaultValue, field.tags⟩

mutual

def memberOfProperty : Property → Member
  | .plain field => .plain (partsOfField field)
  | .inline field properties => .inline (partsOfField field) (membersOfProperties ∅ properties)

/-- Properties as members, put into a bag one after the other. -/
def membersOfProperties (bag : Bag Member) : List Property → Bag Member
  | [] => bag
  | property :: others =>
    membersOfProperties (bag.insert property.field.name (memberOfProperty property)) others

end

/-- The tags without the first of them that equals the given one. -/
def withoutTag (tags : List Tag) : Option Tag → List Tag
  | none => tags
  | some tag => tags.erase tag

def argumentOfParameter (parameter : Parameter) : Argument :=
  let found := Transport.find? parameter.tags
  let tag := found.map (·.2)
  { shape := .ofTypeRef parameter.type
    transport := (found.map (·.1)).getD .fallback
    identifier := tag.bind Tag.firstArgument?
    isOptional := ((tag.bind fun tag => tag.option? optionalKey).map fun value =>
      Text.sameIgnoringCase value optionalValue).getD false
    tags := withoutTag parameter.tags tag }

def argumentsOfParameters (parameters : List Parameter) : Bag Argument :=
  .ofList (parameters.map fun parameter => (parameter.name, argumentOfParameter parameter))

def operationOfMethod (method : Method) : Operation :=
  let found := method.verb?
  let tag := found.map (·.2)
  { name := method.name
    description := method.description
    verb := found.map (·.1)
    path := tag.bind Tag.firstArgument?
    arguments := argumentsOfParameters method.parameters
    response := .ofTypeRef method.returnType
    tags := withoutTag method.tags tag }

def typeOfEntity? : Entity → Option TypeEntry
  | .enumeration declared => some (.enumeration declared)
  | .dataType declared =>
    some (.record ⟨declared.name, declared.description, declared.tags,
      membersOfProperties ∅ declared.properties⟩)
  | _ => none

def operationOfEntity? : Entity → Option Operation
  | .method declared => some (operationOfMethod declared)
  | _ => none

def ofEntities (entities : List Entity) : Schema :=
  ⟨entities.filterMap typeOfEntity?, entities.filterMap operationOfEntity?⟩

def fieldOfParts (name : String) (parts : MemberParts) : Field :=
  ⟨name, parts.shape.toTypeRef, parts.description, parts.defaultValue, parts.tags⟩

mutual

def propertyOfMember (name : String) : Member → Property
  | .plain parts => .plain (fieldOfParts name parts)
  | .inline parts ⟨_, _, row⟩ => .inline (fieldOfParts name parts) (propertiesOfRow row)

def propertiesOfRow : {keys : List String} → Row Member keys → List Property
  | _, .nil => []
  | key :: _, .cons member others => propertyOfMember key member :: propertiesOfRow others

end

def entityOfType : TypeEntry → Entity
  | .record declared =>
    .dataType ⟨declared.name, declared.description, declared.tags,
      propertiesOfRow declared.members.row⟩
  | .enumeration declared => .enumeration declared

def transportTag (argument : Argument) : Tag :=
  { name := argument.transport.tagName
    arguments := argument.identifier.toList
    options := if argument.isOptional then .ofList [(optionalKey, optionalValue)] else ∅ }

/-- Whether the transport of an argument is spelled out: always in an operation with a verb, and
otherwise when there is more to say than that it is the usual one. -/
def spellsTransport (hasVerb : Bool) (argument : Argument) : Bool :=
  hasVerb || argument.transport ≠ .fallback || argument.identifier.isSome || argument.isOptional

def parameterOfArgument (hasVerb : Bool) (name : String) (argument : Argument) : Parameter :=
  { name
    type := argument.shape.toTypeRef
    tags := (if spellsTransport hasVerb argument then [transportTag argument] else [])
      ++ argument.tags }

def verbTag (path : Option String) (verb : Verb) : Tag :=
  ⟨verb.tagName, path.toList, ∅⟩

def methodOfOperation (operation : Operation) : Method :=
  { name := operation.name
    description := operation.description
    tags := (operation.verb.map (verbTag operation.path)).toList ++ operation.tags
    returnType := operation.response.toTypeRef
    parameters := operation.arguments.entries.map fun (name, argument) =>
      parameterOfArgument operation.verb.isSome name argument }

def toEntities (schema : Schema) : List Entity :=
  schema.types.map entityOfType
    ++ schema.operations.map fun operation => .method (methodOfOperation operation)

end ApiDef.Schema
