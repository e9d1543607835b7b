import ApiDef.Reader.Property
set_option autoImplicit false

/-!
# Reading declarations

Enumerations, data types and methods, each with the tags in front of it. What makes a
declaration a data type or a method is the bracket behind its name.
-/

namespace ApiDef

open Text

/-- The part of the options that decides which texts can be read. -/
structure Grammar where
  methods : Bool
  types : Bool
  maxNestingDepth : Nat
deriving DecidableEq, Repr

/-- The part of the options that decides which texts can be read. -/
def Options.grammar (options : Options) : Grammar :=
  ⟨options.methods, options.types, options.maxNestingDepth⟩

namespace Reader

/-- One value of an enumeration, or its end. A comma may stand behind the last value. -/
def valueRound (_ : Unit) : Reader (Round Unit String) := do
  skipTrivia
  if ← eat '}' then pure (.stop [])
  else
    let value ← identifier [.closeBrace]
    skipTrivia
    if ← eat '}' then pure (.stop [value])
    else if ← eat ',' then pure (.next [value] ())
    else unexpected [.mark ",", .closeBrace]

theorem advances_valueRound (state : Unit) : (valueRound state).Advances Round.GoesOn := by
  refine .andThen fun _ => (advances_eat '}').bind fun closed notClosed => ?_
  simp only [Bool.not_eq_true] at notClosed
  subst notClosed
  exact (advances_identifier _).bind fun _ never => absurd trivial never

def enumeration (tags : List Tag) : Reader Enumeration := do
  skipTrivia
  let name ← identifier []
  ask (.declare name)
  skipTrivia
  require '{'
  let values ← rounds valueRound advances_valueRound ()
  pure ⟨name, none, tags, values⟩

theorem advances_enumeration (tags : List Tag) :
    (enumeration tags).Advances fun _ => True :=
  .andThen fun _ => (advances_identifier _).bind fun _ never => absurd trivial never

/-- A parameter as it was read, with the places that questions about it need. -/
structure ReadParameter where
  name : String
  tags : List (Tag × Span)
  type : TypeRef
  typePlace : Span
deriving DecidableEq, Repr

def ReadParameter.parameter (read : ReadParameter) : Parameter :=
  ⟨read.name, read.type, read.tags.map (·.1)⟩

def parameter (types : Advancing TypeRef) : Reader ReadParameter := do
  let tags ← tags
  let name ← identifier [.mark "@", .mark ")"]
  skipTrivia
  require ':'
  skipTrivia
  let (type, typePlace) ← spanned types.toReader
  pure ⟨name, tags, type, typePlace⟩

theorem advances_parameter (types : Advancing TypeRef) :
    (parameter types).Advances fun _ => True :=
  .andThen fun _ => (advances_identifier _).bind fun _ never => absurd trivial never

/-- The parameters of a method after its opening parenthesis. -/
def parameters (types : Advancing TypeRef) : Reader (List ReadParameter) := do
  skipTrivia
  if ← eat ')' then pure []
  else separated skipTrivia ⟨parameter types, advances_parameter types⟩ ')'

/-- Asks what there is to ask about the parameters of a method. -/
def askParameters : List ReadParameter → Reader Unit
  | [] => pure ()
  | read :: others => do
    ask (.tags .parameter read.tags)
    ask (.type read.type read.typePlace)
    askParameters others

/-- A method after its opening parenthesis. Questions come after the whole signature. -/
def method (limit : Nat) (tags : List (Tag × Span)) (name : String)
    (namePlace : Span) : Reader Method := do
  let types := typeRef limit (limit + 1)
  let parameters ← parameters types
  skipTrivia
  require ':'
  skipTrivia
  let (returnType, returnPlace) ← spanned types.toReader
  let method : Method :=
    ⟨name, none, tags.map (·.1), returnType, parameters.map ReadParameter.parameter⟩
  ask (.tags .method tags)
  askParameters parameters
  ask (.type returnType returnPlace)
  if method.verb?.isSome then ask (.route method (namePlace.merge returnPlace)) else pure ()
  pure method

/-- Whether the reserved word of enumerations stands at the start of a text. -/
def startsEnumeration (cs : List Char) : Bool :=
  (afterWord? "enum" cs).isSome

/-- A declaration that starts with the reserved word. -/
def keywordDeclaration (grammar : Grammar) (tags : List (Tag × Span)) :
    Reader Entity := do
  if grammar.types then
    let _ ← eatText "enum".toList
    ask (.tags .type tags)
    let declared ← enumeration (tags.map (·.1))
    pure (.enumeration declared)
  else fail .enumerationsForbidden

def namedDeclaration (grammar : Grammar) (tags : List (Tag × Span)) :
    Reader Entity := do
  let (name, namePlace) ← spanned (identifier [.mark "@", .mark "enum"])
  skipTrivia
  if ← lookingAt '{' then
    if grammar.types then
      ask (.tags .type tags)
      ask (.declare name)
      require '{'
      let properties ← body grammar.maxNestingDepth grammar.maxNestingDepth
      pure (.dataType ⟨name, none, tags.map (·.1), properties⟩)
    else failAt namePlace .dataTypesForbidden
  else if ← lookingAt '(' then
    if grammar.methods then
      require '('
      let declared ← method grammar.maxNestingDepth tags name namePlace
      pure (.method declared)
    else failAt namePlace .methodsForbidden
  else unexpected [.mark "(", .openBrace]

def declaration (grammar : Grammar) : Reader Entity := do
  let tags ← tags
  if ← look startsEnumeration then keywordDeclaration grammar tags
  else namedDeclaration grammar tags

end Reader

end ApiDef
