import ApiDef.Document
import ApiDef.Text.Quoted
set_option autoImplicit false

/-!
# Canonical layout

The one way in which entities are written. Each entity is a block, and a blank line stands between
two blocks. A description and tags stand on lines of their own right above what they belong
to, where a reader finds them again.
-/

namespace ApiDef

open Text

/-- What one level of indentation is. -/
inductive Indentation where
  | tab
  | spaces (count : Nat)
deriving DecidableEq, Repr

namespace Indentation

def unit : Indentation → String
  | tab => "\t"
  | spaces count => String.ofList (List.replicate count ' ')

def margin (indentation : Indentation) (depth : Nat) : String :=
  String.join (List.replicate depth indentation.unit)

end Indentation

/-- The arguments and options of a tag as they are written between its parentheses. -/
def Tag.itemTexts (tag : Tag) : List String :=
  tag.arguments.map quote
    ++ tag.options.entries.map fun (key, value) => key ++ " = " ++ quote value

def Tag.text (tag : Tag) : String :=
  if tag.arguments.isEmpty && tag.options.isEmpty then tag.name
  else tag.name ++ "(" ++ String.intercalate ", " tag.itemTexts ++ ")"

def Parameter.text (parameter : Parameter) : String :=
  String.join (parameter.tags.map fun tag => tag.text ++ " ")
    ++ parameter.name ++ ":" ++ parameter.type.text

namespace Layout

/-- The lines above a construct: its description, then its tags. -/
def preamble (margin : String) (description : Option String) (tags : List Tag) :
    String :=
  String.join ((description.map lines).getD [] |>.map fun line => margin ++ "//" ++ line ++ "\n")
    ++ String.join (tags.map fun tag => margin ++ tag.text ++ "\n")

def defaultText : Option String → String
  | none => ""
  | some value => " = " ++ value

mutual

/-- A property at some depth, without a line feed behind it. -/
def property (indentation : Indentation) (depth : Nat) : Property → String
  | .plain field =>
    preamble (indentation.margin depth) field.description field.tags
      ++ indentation.margin depth ++ field.name ++ ": " ++ field.type.text
      ++ defaultText field.defaultValue
  | .inline field [] =>
    preamble (indentation.margin depth) field.description field.tags
      ++ indentation.margin depth ++ field.name ++ ": "
      ++ (if field.type.isList then "[\x7b\x7d]" else "\x7b\x7d")
      ++ defaultText field.defaultValue
  | .inline field (first :: others) =>
    preamble (indentation.margin depth) field.description field.tags
      ++ indentation.margin depth ++ field.name ++ ": "
      ++ (if field.type.isList then "[\x7b\n" else "\x7b\n")
      ++ property indentation (depth + 1) first ++ "\n"
      ++ properties indentation (depth + 1) others
      ++ indentation.margin depth ++ (if field.type.isList then "\x7d]" else "\x7d")
      ++ defaultText field.defaultValue

/-- Properties at some depth, each with a line feed behind it. -/
def properties (indentation : Indentation) (depth : Nat) : List Property → String
  | [] => ""
  | first :: others =>
    property indentation depth first ++ "\n" ++ properties indentation depth others

end

def body (indentation : Indentation) (members : List Property) : String :=
  if members.isEmpty then "\x7b\x7d"
  else "\x7b\n" ++ properties indentation 1 members ++ "\x7d"

/-- The values of an enumeration: a comma stands behind every value but the last. -/
def values (indentation : Indentation) : List String → String
  | [] => ""
  | [value] => indentation.unit ++ value ++ "\n"
  | value :: others => indentation.unit ++ value ++ ",\n" ++ values indentation others

def enumeration (indentation : Indentation) (declared : Enumeration) : String :=
  preamble "" declared.description declared.tags ++ "enum " ++ declared.name
    ++ if declared.values.isEmpty then " \x7b\x7d"
      else " \x7b\n" ++ values indentation declared.values ++ "\x7d"

def dataType (indentation : Indentation) (declared : DataType) : String :=
  preamble "" declared.description declared.tags ++ declared.name ++ " "
    ++ body indentation declared.properties

def method (declared : Method) : String :=
  preamble "" declared.description declared.tags ++ declared.name ++ "("
    ++ String.intercalate ", " (declared.parameters.map Parameter.text) ++ "):"
    ++ declared.returnType.text

def block (indentation : Indentation) : Entity → String
  | .comment text => "#" ++ text
  | .enumeration declared => enumeration indentation declared
  | .dataType declared => dataType indentation declared
  | .method declared => method declared

/-- Entities in canonical layout, without blanks at either end. -/
def write (indentation : Indentation) (entities : List Entity) : String :=
  trim (String.intercalate "\n\n" (entities.map (block indentation)))

/-- Reads a text and writes what it contains in canonical layout. -/
def format (patternFault? : String → Option String) (options : Options) (text : String) :
    Except ReadError String :=
  (Document.readWith patternFault? options text).map fun document => write .tab document.entities

end Layout

end ApiDef
