import ApiDef.Options
import ApiDef.Rest.Verb
set_option autoImplicit false

/-!
# Vocabularies

Which tags may stand where. The names come from the options; REST adds the verbs to those of
methods and the transports to those of parameters.
-/

namespace ApiDef

/-- A place where tags can stand. -/
inductive Site where
  | method
  | parameter
  | type
  | field
deriving DecidableEq, Repr

namespace Site

def singular : Site → String
  | method => "method"
  | parameter => "parameter"
  | type => "type"
  | field => "field"

def plural (site : Site) : String := site.singular ++ "s"

end Site

namespace Options

/-- A tag name with exactly one `@`. -/
def normalizedName (name : String) : String :=
  "@" ++ Text.dropLeading '@' (Text.trim name)

def tagNames (options : Options) : Site → List String
  | .method => options.methodTags
  | .parameter => options.parameterTags
  | .type => options.typeTags
  | .field => options.fieldTags

def restNames : Site → List String
  | .method => Verb.all.map Verb.tagName
  | .parameter => Transport.all.map Transport.tagName
  | .type | .field => []

def allowedTags (options : Options) (site : Site) : List String :=
  (options.tagNames site).map normalizedName ++ if options.rest then restNames site else []

end Options

end ApiDef
