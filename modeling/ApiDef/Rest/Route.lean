import ApiDef.Rest.PathTemplate
import ApiDef.Rest.Verb
set_option autoImplicit false

/-!
# Routes

A method with a verb has a route: its path template and its path-bound parameters must cover each
other. Patterns are a matter of a library of regular expressions: `patternFault?` gives what it finds
wrong with a pattern, in its own words, and `none` for a pattern that it accepts.
-/

namespace ApiDef

/-- What can be wrong with a route. -/
inductive RouteIssue where
  | badShape (path : String)
  | unboundVariable (name : String)
  /-- The pattern, and what is wrong with it. -/
  | badPattern (pattern explanation : String)
  | unusedParameter (name : String)
  | unsupportedType (name : String) (type : TypeRef)
deriving DecidableEq, Repr

/-- The types that a piece of a path can be converted to, in the order of listings. -/
def stringableTypes : List String :=
  ["string", "integer", "long", "float", "double", "char", "byte", "boolean", "date"]

namespace RouteIssue

def message : RouteIssue → String
  | badShape path =>
    "Invalid URL path specified: \"" ++ path
      ++ "\". Paths must start with \"/\" and must not end with \"/\""
  | unboundVariable name => "Path variable not found in parameters " ++ name
  | badPattern pattern explanation =>
    "Invalid regular expression provided as pattern: " ++ pattern ++ ". Error: " ++ explanation
  | unusedParameter name =>
    "Parameter defines path variable \"" ++ name ++ "\" which is never used in path"
  | unsupportedType name type =>
    "Invalid type for path variable \"" ++ name ++ "\": \"" ++ type.text
      ++ "\". Supported types are: " ++ String.intercalate ", " stringableTypes

end RouteIssue

/-- Whether a type can be bound from a path: a bare name of a stringable type. -/
def TypeRef.isStringable (type : TypeRef) : Bool :=
  type.isSimple && stringableTypes.contains type.name

namespace Route

def shapeIssue? (path : String) : Option RouteIssue :=
  if PathTemplate.isWellShaped path then none else some (.badShape path)

/-- What is wrong with one variable of the path: it must be bound, and its pattern well formed. -/
def variableIssue? (patternFault? : String → Option String) (parameters : List Parameter)
    (bound : PathVariable) : Option RouteIssue :=
  if parameters.any fun parameter => parameter.pathVariable? = some bound.name then
    bound.pattern.bind fun pattern => (patternFault? pattern).map (.badPattern pattern)
  else some (.unboundVariable bound.name)

/-- What is wrong with one parameter: a path variable must be used and have a stringable type. -/
def parameterIssue? (bound : List PathVariable) (parameter : Parameter) : Option RouteIssue :=
  match parameter.pathVariable? with
  | none => none
  | some name =>
    if bound.any fun other => other.name = name then
      if parameter.type.isStringable then none else some (.unsupportedType name parameter.type)
    else some (.unusedParameter name)

end Route

/-- The first issue of the route of a method; a method without a verb has no route. The shape of the
path counts first, then its variables, then the parameters. -/
def Method.routeIssue? (patternFault? : String → Option String) (method : Method) : Option RouteIssue :=
  match method.verb? with
  | none => none
  | some (_, tag) =>
    let path := tag.firstArgument?
    let bound := (path.map PathTemplate.pathVariables).getD []
    (path.bind Route.shapeIssue?)
      |>.orElse fun _ => bound.findSome? (Route.variableIssue? patternFault? method.parameters)
      |>.orElse fun _ => method.parameters.findSome? (Route.parameterIssue? bound)

end ApiDef
