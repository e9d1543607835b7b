import ApiDef.Model.OptionTable
import ApiDef.Model.TypeRef
import ApiDef.Text.Blank
set_option autoImplicit false

/-!
# Entities

What a definition text declares: comments, enumerations, data types and methods. The model holds no
places in the text, so two texts that differ only in layout declare equal entities.
-/

namespace ApiDef

/-- A tag such as `@GET("/users")`, which messages call an annotation. Its name includes the leading
`@`. -/
structure Tag where
  name : String
  arguments : List String
  options : OptionTable
deriving DecidableEq, Repr, Inhabited

namespace Tag

/-- A tag without arguments; a missing `@` is put in front of the name. -/
def named (name : String) : Tag :=
  match name.toList with
  | '@' :: _ => ⟨name, [], ∅⟩
  | _ => ⟨"@" ++ name, [], ∅⟩

def withArgument (tag : Tag) (argument : String) : Tag :=
  { tag with arguments := tag.arguments ++ [argument] }

def withOption (tag : Tag) (key value : String) : Tag :=
  { tag with options := tag.options.insert key value }

/-- The name without any leading `@`. -/
def bareName (tag : Tag) : String :=
  Text.dropLeading '@' tag.name

/-- Whether a tag has the given name: `@` is optional and case does not matter. -/
def isNamed (tag : Tag) (name : String) : Bool :=
  Text.sameIgnoringCase tag.bareName (Text.dropLeading '@' name)

def firstArgument? (tag : Tag) : Option String :=
  tag.arguments.head?

def option? (tag : Tag) (key : String) : Option String :=
  tag.options.get? key

end Tag

/-- A parameter of a method. -/
structure Parameter where
  name : String
  type : TypeRef
  tags : List Tag
deriving DecidableEq, Repr, Inhabited

/-- The first tag of a parameter that has the given name. -/
def Parameter.tag? (parameter : Parameter) (name : String) : Option Tag :=
  parameter.tags.find? (·.isNamed name)

/-- A member of a data type, apart from what an inline object contains. The default value is the
literal as it was spelled. -/
structure Field where
  name : String
  type : TypeRef
  description : Option String
  defaultValue : Option String
  tags : List Tag
deriving DecidableEq, Repr, Inhabited

/-- A field without description, default value or tags. -/
def Field.bare (name : String) (type : TypeRef) : Field :=
  ⟨name, type, none, none, []⟩

/-- A member of a data type. An inline object carries properties of its own. -/
inductive Property where
  | plain (field : Field)
  | inline (field : Field) (properties : List Property)
deriving Repr, Inhabited

namespace Property

def field : Property → Field
  | plain field => field
  | inline field _ => field

def properties? : Property → Option (List Property)
  | plain _ => none
  | inline _ properties => some properties

/-- Whether a property carries properties of its own. -/
def isInline : Property → Bool
  | plain _ => false
  | inline _ _ => true

/-- A property with or without properties of its own. -/
def ofField (field : Field) : Option (List Property) → Property
  | none => plain field
  | some properties => inline field properties

/-- An inline object, or a list of them. -/
def object (name : String) (isList : Bool) (properties : List Property) : Property :=
  inline (Field.bare name ⟨TypeRef.objectName, isList, []⟩) properties

def mapField (change : Field → Field) : Property → Property
  | plain field => plain (change field)
  | inline field properties => inline (change field) properties

mutual

def decideEq : (left right : Property) → Decidable (left = right)
  | plain left, plain right =>
    if same : left = right then isTrue (by rw [same])
    else isFalse fun equal => same (by injection equal)
  | inline left lefts, inline right rights =>
    if same : left = right then
      match decideEqAll lefts rights with
      | isTrue inner => isTrue (by rw [same, inner])
      | isFalse differ => isFalse fun equal => differ (by injection equal)
    else isFalse fun equal => same (by injection equal)
  | plain _, inline _ _ => isFalse fun equal => nomatch equal
  | inline _ _, plain _ => isFalse fun equal => nomatch equal

def decideEqAll : (left right : List Property) → Decidable (left = right)
  | [], [] => isTrue rfl
  | [], _ :: _ => isFalse fun equal => nomatch equal
  | _ :: _, [] => isFalse fun equal => nomatch equal
  | left :: lefts, right :: rights =>
    match decideEq left right with
    | isTrue heads =>
      match decideEqAll lefts rights with
      | isTrue tails => isTrue (by rw [heads, tails])
      | isFalse differ => isFalse fun equal => differ (by injection equal)
    | isFalse differ => isFalse fun equal => differ (by injection equal)

end

instance : DecidableEq Property := decideEq

end Property

/-- A closed set of named values. -/
structure Enumeration where
  name : String
  description : Option String
  tags : List Tag
  values : List String
deriving DecidableEq, Repr, Inhabited

/-- A named structure. -/
structure DataType where
  name : String
  description : Option String
  tags : List Tag
  properties : List Property
deriving DecidableEq, Repr, Inhabited

/-- A method signature. -/
structure Method where
  name : String
  description : Option String
  tags : List Tag
  returnType : TypeRef
  parameters : List Parameter
deriving DecidableEq, Repr, Inhabited

/-- One top-level construct. -/
inductive Entity where
  | comment (text : String)
  | enumeration (declared : Enumeration)
  | dataType (declared : DataType)
  | method (declared : Method)
deriving DecidableEq, Repr, Inhabited

namespace Entity

/-- The four constructs. -/
inductive Kind where
  | comment
  | enumeration
  | dataType
  | method
deriving DecidableEq, Repr

def Kind.label : Kind → String
  | comment => "COMMENT"
  | enumeration => "ENUM"
  | dataType => "DATATYPE"
  | method => "METHOD"

def kind : Entity → Kind
  | comment _ => .comment
  | enumeration _ => .enumeration
  | dataType _ => .dataType
  | method _ => .method

/-- The declared name; comments have none. -/
def name? : Entity → Option String
  | comment _ => none
  | enumeration declared => some declared.name
  | dataType declared => some declared.name
  | method declared => some declared.name

def description? : Entity → Option String
  | comment _ => none
  | enumeration declared => declared.description
  | dataType declared => declared.description
  | method declared => declared.description

def tags : Entity → List Tag
  | comment _ => []
  | enumeration declared => declared.tags
  | dataType declared => declared.tags
  | method declared => declared.tags

def isComment (entity : Entity) : Bool :=
  entity.kind = .comment

/-- The declaration with another description; a comment stays as it is. -/
def describe (description : Option String) : Entity → Entity
  | comment text => comment text
  | enumeration declared => enumeration { declared with description }
  | dataType declared => dataType { declared with description }
  | method declared => method { declared with description }

end Entity

end ApiDef
