import ApiDef.Json.Value
import ApiDef.Schema.Basic
set_option autoImplicit false

/-!
# Schemas as JSON

The JSON form of schemas. Fields stand in a fixed order, and a field that is empty is left out where
reading fills it in again; members and arguments keep the order of their bags.
-/

namespace ApiDef

def Bag.toJson {α : Type} (encode : α → Json) (bag : Bag α) : Json :=
  .object (bag.entries.map fun (key, value) => (key, encode value))

/-- A shape: a string for a primitive, an object otherwise. -/
def Shape.toJson : Shape → Json
  | primitive name => .string name
  | reference target => .object [("$ref", .string target)]
  | list element => .object [("type", .string "array"), ("items", element.toJson)]

namespace Schema

def textsJson (texts : List String) : Json := .array (texts.map .string)

def optionalField {α : Type} (name : String) (encode : α → Json) : Option α → List (String × Json)
  | none => []
  | some value => [(name, encode value)]

/-- A field that is left out when it is an empty list. -/
def listField {α : Type} (name : String) (encode : α → Json) : List α → List (String × Json)
  | [] => []
  | values => [(name, .array (values.map encode))]

/-- The options of a tag, left out when there are none. -/
def optionsField (options : OptionTable) : List (String × Json) :=
  if options.isEmpty then []
  else [("options", .object (options.entries.map fun (key, value) => (key, .string value)))]

def tagJson (tag : Tag) : Json :=
  .object <| ("type", .string tag.name) :: (listField "arguments" .string tag.arguments
    ++ optionsField tag.options)

def tagsField (tags : List Tag) : List (String × Json) :=
  listField "annotations" tagJson tags

def descriptionField (description : Option String) : List (String × Json) :=
  optionalField "description" .string description

/-- The fields of a member apart from what it contains. -/
def partsFields (parts : MemberParts) : List (String × Json) :=
  ("type", parts.shape.toJson) :: (descriptionField parts.description
    ++ (optionalField "defaultValue" .string parts.defaultValue ++ tagsField parts.tags))

mutual

def memberJson : Member → Json
  | .plain parts => .object (partsFields parts)
  | .inline parts ⟨_, _, row⟩ =>
    .object (partsFields parts ++ [("properties", .object (rowJson row))])

def rowJson : {keys : List String} → Row Member keys → List (String × Json)
  | _, .nil => []
  | key :: _, .cons value others => (key, memberJson value) :: rowJson others

end

def recordWord : String := "dto"

def enumerationWord : String := "enum"

def TypeEntry.toJson : TypeEntry → Json
  | record declared =>
    .object <| [("type", .string recordWord), ("name", .string declared.name)]
      ++ descriptionField declared.description ++ tagsField declared.tags
      ++ [("properties", .object (rowJson declared.members.row))]
  | enumeration declared =>
    .object <| [("type", .string enumerationWord), ("name", .string declared.name)]
      ++ descriptionField declared.description ++ tagsField declared.tags
      ++ [("values", textsJson declared.values)]

def transportWords : List (String × Transport) :=
  [("PATH", .path), ("HEADER", .header), ("QUERY", .query), ("BODY", .body)]

def transportWord : Transport → String
  | .path => "PATH"
  | .header => "HEADER"
  | .query => "QUERY"
  | .body => "BODY"

def verbWords : List (String × Verb) :=
  Verb.all.map fun verb => (verb.label, verb)

def Argument.toJson (argument : Argument) : Json :=
  .object <| [("type", argument.shape.toJson),
      ("transport", .string (transportWord argument.transport))]
    ++ optionalField "id" .string argument.identifier ++ [("optional", .bool argument.isOptional)]
    ++ tagsField argument.tags

def Operation.toJson (operation : Operation) : Json :=
  .object <| [("name", .string operation.name)] ++ descriptionField operation.description
    ++ optionalField "method" (fun verb : Verb => .string verb.label) operation.verb
    ++ optionalField "path" .string operation.path
    ++ [("arguments", operation.arguments.toJson Argument.toJson),
      ("responseType", operation.response.toJson)]
    ++ tagsField operation.tags

def toJson (schema : Schema) : Json :=
  .object [("types", .array (schema.types.map TypeEntry.toJson)),
    ("methods", .array (schema.operations.map Operation.toJson))]

def write (style : Json.Style) (schema : Schema) : String :=
  schema.toJson.text style

end Schema

end ApiDef
