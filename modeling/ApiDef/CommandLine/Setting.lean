set_option autoImplicit false

/-!
# Settings and tasks

The tasks of the program and the options that each of them knows.
-/

namespace ApiDef.CommandLine

/-- What an option sets. -/
inductive Setting where
  | methods
  | types
  | rest
  | all
  | validType
  | soft
  | methodTag
  | parameterTag
  | typeTag
  | fieldTag
  | maxDepth
  | output
  | check
  | indent
  | pretty
  | json
  | verbose
  | help
  | version
deriving DecidableEq, Repr

/-- How an option is given. -/
inductive Form where
  /-- Without a value, at most once. -/
  | switch
  /-- With a text, at most once. -/
  | text
  /-- With a text, any number of times. -/
  | texts
  /-- With a number, at most once. -/
  | number
deriving DecidableEq, Repr

namespace Setting

def longName : Setting → String
  | methods => "methods"
  | types => "types"
  | rest => "rest"
  | all => "all"
  | validType => "valid-type"
  | soft => "soft"
  | methodTag => "method-annotation"
  | parameterTag => "parameter-annotation"
  | typeTag => "type-annotation"
  | fieldTag => "field-annotation"
  | maxDepth => "max-depth"
  | output => "output"
  | check => "check"
  | indent => "indent"
  | pretty => "pretty"
  | json => "json"
  | verbose => "verbose"
  | help => "help"
  | version => "version"

def letter? : Setting → Option Char
  | all => some 'a'
  | output => some 'o'
  | check => some 'c'
  | pretty => some 'p'
  | verbose => some 'v'
  | help => some 'h'
  | version => some 'V'
  | _ => none

def form : Setting → Form
  | validType | methodTag | parameterTag | typeTag | fieldTag => .texts
  | maxDepth | indent => .number
  | output => .text
  | _ => .switch

end Setting

/-- What the program can do. -/
inductive Task where
  | validate
  | format
  | tokens
  | toSchema
  | fromSchema
deriving DecidableEq, Repr

namespace Task

def everyTask : List Task := [validate, format, tokens, toSchema, fromSchema]

def word : Task → String
  | validate => "validate"
  | format => "format"
  | tokens => "tokens"
  | toSchema => "to-schema"
  | fromSchema => "from-schema"

def ofWord? (word : String) : Option Task :=
  everyTask.find? fun task => task.word = word

/-- The settings of every task that reads definitions. -/
def readerSettings : List Setting :=
  [.methods, .types, .rest, .all, .validType, .soft, .methodTag, .parameterTag, .typeTag, .fieldTag,
   .maxDepth]

def settings (task : Task) : List Setting :=
  [.verbose, .help] ++ match task with
  | validate => readerSettings
  | format => [.output, .check, .indent] ++ readerSettings
  | tokens => [.json]
  | toSchema => [.output, .pretty] ++ readerSettings
  | fromSchema => [.output]

end Task

end ApiDef.CommandLine
