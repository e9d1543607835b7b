import ApiDef.Reader.Tag
import ApiDef.Reader.Comment
set_option autoImplicit false

/-!
# Reading properties

The body of a data type is a run of properties, each with an optional comma or semicolon behind it.
A property is typed, or it is an inline object or a list of inline objects with a body of its own.
The nesting limit is what ends the recursion. Questions are raised where `Parser.property` checks.
-/

namespace ApiDef.Reader

open Text

/-- The default value of a property, if an equals sign follows. The spelling of its literal counts. -/
def defaultValue? : Reader (Option String) := do
  let assigned ← attempt do
    skipBlanks
    if ← eat '=' then pure (some ()) else pure none
  match assigned with
  | none => pure none
  | some () =>
    skipBlanks
    let found ← literal
    pure (some found.spelling)

/-- The type of a property and, for inline objects, the properties of its body. -/
def propertyShape (types : Advancing TypeRef) (inner : Unit → Reader (List Property)) :
    Reader (TypeRef × Option (List Property)) := do
  if ← eat '{' then
    let properties ← inner ()
    pure (⟨TypeRef.objectName, false, []⟩, some properties)
  else if ← eat '[' then
    skipBlanks
    require '{'
    let properties ← inner ()
    skipBlanks
    require ']'
    pure (⟨TypeRef.objectName, true, []⟩, some properties)
  else
    let (type, place) ← spanned types.toReader
    ask (.type type place)
    pure (type, none)

def property (types : Advancing TypeRef) (inner : Unit → Reader (List Property)) :
    Reader Property := do
  let tags ← tags
  ask (.tags .field tags)
  let name ← identifier [.mark "@", .closeBrace]
  skipBlanks
  require ':'
  skipBlanks
  let (type, properties) ← propertyShape types inner
  let defaultValue ← defaultValue?
  pure (.ofField ⟨name, type, none, defaultValue, tags.map (·.1)⟩ properties)

theorem advances_property (types : Advancing TypeRef) (inner : Unit → Reader (List Property)) :
    (property types inner).Advances fun _ => True :=
  .andThen fun _ => .andThen fun _ =>
    (advances_identifier _).bind fun _ never => absurd trivial never

def eatSeparator : Reader Bool := do
  if ← eat ',' then pure true else eat ';'

/-- A property with its description, and the comments and the separator behind it. -/
def describedProperty (types : Advancing TypeRef) (inner : Unit → Reader (List Property))
    (pending : Pending) : Reader (Round Pending Property) := do
  let start ← here
  let description := descriptionOf (splitDescription start.line pending.comments).1
  let property ← property types inner
  let stop ← here
  skipBlanks
  let separated ← eatSeparator
  let after ← here
  pure (.next [property.mapField fun field => { field with description }]
    ⟨[], if separated then after.line else stop.line⟩)

/-- A comment, a property, or the end of the body. -/
def propertyRound (types : Advancing TypeRef) (inner : Unit → Reader (List Property))
    (pending : Pending) : Reader (Round Pending Property) := do
  skipBlanks
  match ← comment? pending.lastCodeLine with
  | some comment => pure (.next [] (pending.add comment))
  | none =>
    if ← eat '}' then pure (.stop [])
    else if ← look startsDeclaration then describedProperty types inner pending
    else unexpected [.mark "@", .closeBrace, .comment, .identifier]

theorem advances_propertyRound (types : Advancing TypeRef)
    (inner : Unit → Reader (List Property)) (pending : Pending) :
    (propertyRound types inner pending).Advances Round.GoesOn := by
  refine .andThen fun _ => (advances_comment? _).bind fun found notFound => ?_
  cases found with
  | some => simp at notFound
  | none =>
    refine (advances_eat '}').bind fun closed notClosed => ?_
    simp only [Bool.not_eq_true] at notClosed
    subst notClosed
    refine .andThen fun starts => ?_
    cases starts with
    | false => exact advances_unexpected
    | true =>
      exact .andThen fun _ =>
        (advances_property types inner).bind fun _ never => absurd trivial never

/-- The properties of a body after its opening brace, up to and including the closing one. The body
is one of the levels that are left; `limit` is how many there are in all. -/
def body (limit : Nat) : Nat → Reader (List Property)
  | 0 => fail (.tooDeep limit)
  | levels + 1 => do
    let start ← here
    let types := typeRef limit (levels + 1)
    let inner := fun _ => body limit levels
    rounds (propertyRound types inner) (advances_propertyRound types inner) ⟨[], start.line⟩

end ApiDef.Reader
