set_option autoImplicit false

/-!
# Options

Which constructs a text may use, which names its types and tags may have, and whether
findings stop the reading.
-/

namespace ApiDef

/-- The settings of one reading. -/
structure Options where
  /-- Method declarations are allowed. -/
  methods : Bool
  /-- Enumerations and data types are allowed. -/
  types : Bool
  /-- REST tags are known and REST paths are checked. -/
  rest : Bool
  /-- Further type names; `Name<*,*>` has as many generic arguments as it shows. -/
  validTypes : List String
  methodTags : List String
  parameterTags : List String
  typeTags : List String
  fieldTags : List String
  /-- Findings are collected; otherwise the first one stops the reading. -/
  softErrors : Bool
  /-- How deep inline objects and generic arguments may nest. -/
  maxNestingDepth : Nat
deriving DecidableEq, Repr, Inhabited

namespace Options

def defaultNestingDepth : Nat := 64

def default : Options :=
  ⟨false, false, false, [], [], [], [], [], false, defaultNestingDepth⟩

/-- Every construct is allowed, with REST. -/
def permissive : Options :=
  { default with methods := true, types := true, rest := true }

def addValidType (options : Options) (name : String) : Options :=
  { options with validTypes := options.validTypes ++ [name] }

def addMethodTag (options : Options) (name : String) : Options :=
  { options with methodTags := options.methodTags ++ [name] }

def addParameterTag (options : Options) (name : String) : Options :=
  { options with parameterTags := options.parameterTags ++ [name] }

def addTypeTag (options : Options) (name : String) : Options :=
  { options with typeTags := options.typeTags ++ [name] }

def addFieldTag (options : Options) (name : String) : Options :=
  { options with fieldTags := options.fieldTags ++ [name] }

end Options

end ApiDef
