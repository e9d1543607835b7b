import ApiDef.Parser.Basic
import ApiDef.Reader.Property
set_option autoImplicit false

/-!
# Parsing properties

The tags of a property are checked in front of its name, and its type right behind it. The nesting
limit is what ends the recursion.
-/

namespace ApiDef.Parser

open Reader (Advancing Round Pending)
open Text

/-- The type of a property and, for inline objects, the properties of its body. -/
def propertyShape (types : Advancing TypeRef) (inner : Unit → Parser (List Property)) :
    Parser (TypeRef × Option (List Property)) := do
  if ← Reader.eat '{' then
    let properties ← inner ()
    pure (⟨TypeRef.objectName, false, []⟩, some properties)
  else if ← Reader.eat '[' then
    Reader.skipBlanks
    Reader.require '{'
    let properties ← inner ()
    Reader.skipBlanks
    Reader.require ']'
    pure (⟨TypeRef.objectName, true, []⟩, some properties)
  else
    let (type, place) ← Reader.spanned types.toReader
    check fun validator => validator.checkType type place
    pure (type, none)

def property (types : Advancing TypeRef) (inner : Unit → Parser (List Property)) :
    Parser Property := do
  let tags ← Reader.tags
  check fun validator => validator.checkTags .field tags
  let name ← Reader.identifier [.mark "@", .closeBrace]
  Reader.skipBlanks
  Reader.require ':'
  Reader.skipBlanks
  let (type, properties) ← propertyShape types inner
  let defaultValue ← Reader.defaultValue?
  pure (.ofField ⟨name, type, none, defaultValue, tags.map (·.1)⟩ properties)

theorem advances_property (types : Advancing TypeRef) (inner : Unit → Parser (List Property)) :
    (property types inner).Advances fun _ => True :=
  .andThen fun _ => .andThen fun _ =>
    (advances_reading (Reader.advances_identifier _)).bind fun _ never => absurd trivial never

/-- A property with its description, and the comments and the separator behind it. -/
def describedProperty (types : Advancing TypeRef) (inner : Unit → Parser (List Property))
    (pending : Pending) : Parser (Round Pending Property) := do
  let start ← Reader.here
  let description := Reader.descriptionOf (Reader.splitDescription start.line pending.comments).1
  let property ← property types inner
  let stop ← Reader.here
  Reader.skipBlanks
  let separated ← Reader.eatSeparator
  let after ← Reader.here
  pure (.next [property.mapField fun field => { field with description }]
    ⟨[], if separated then after.line else stop.line⟩)

/-- A comment, a property, or the end of the body. -/
def propertyRound (types : Advancing TypeRef) (inner : Unit → Parser (List Property))
    (pending : Pending) : Parser (Round Pending Property) := do
  Reader.skipBlanks
  match ← Reader.comment? pending.lastCodeLine with
  | some comment => pure (.next [] (pending.add comment))
  | none =>
    if ← Reader.eat '}' then pure (.stop [])
    else if ← Reader.look Reader.startsDeclaration then describedProperty types inner pending
    else Reader.unexpected [.mark "@", .closeBrace, .comment, .identifier]

theorem advances_propertyRound (types : Advancing TypeRef)
    (inner : Unit → Parser (List Property)) (pending : Pending) :
    (propertyRound types inner pending).Advances Round.GoesOn := by
  refine .andThen fun _ =>
    (advances_reading (Reader.advances_comment? _)).bind fun found notFound => ?_
  cases found with
  | some => simp at notFound
  | none =>
    refine (advances_reading (Reader.advances_eat '}')).bind fun closed notClosed => ?_
    simp only [Bool.not_eq_true] at notClosed
    subst notClosed
    refine .andThen fun starts => ?_
    cases starts with
    | false => exact advances_reading Reader.advances_unexpected
    | true =>
      exact .andThen fun _ =>
        (advances_property types inner).bind fun _ never => absurd trivial never

/-- The properties of a body after its opening brace, up to and including the closing one. The body
is one of the levels that are left; `limit` is how many there are in all. -/
def body (limit : Nat) : Nat → Parser (List Property)
  | 0 => Reader.fail (.tooDeep limit)
  | levels + 1 => do
    let start ← Reader.here
    let types := Reader.typeRef limit (levels + 1)
    let inner := fun _ => body limit levels
    rounds (propertyRound types inner) (advances_propertyRound types inner) ⟨[], start.line⟩

end ApiDef.Parser
