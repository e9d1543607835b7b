import ApiDef.Check.TypeTable
import ApiDef.Document
set_option autoImplicit false

/-!
# Shapes

How a schema says what a value looks like: a built-in type by its name, any other type by a
reference, and a list by what its elements look like.
-/

namespace ApiDef

/-- What a value looks like. -/
inductive Shape where
  | primitive (name : String)
  | reference (target : String)
  | list (element : Shape)
deriving DecidableEq, Repr, Inhabited

namespace Shape

/-- Whether a name is that of a built-in type or of inline objects. -/
def isPrimitiveName (name : String) : Bool :=
  name = TypeRef.objectName || builtinTypes.contains name

/-- The shape of a name that may have generic arguments, spelled as it is referred to. -/
def ofElement (type : TypeRef) : Shape :=
  if type.generics.isEmpty && isPrimitiveName type.name then primitive type.name
  else reference type.element.text

def ofTypeRef (type : TypeRef) : Shape :=
  if type.isList then list (ofElement type) else ofElement type

/-- The type of a shape. A reference is read as a type; one that is none is taken as a name. -/
def toTypeRef : Shape → TypeRef
  | primitive name => .simple name
  | reference target => (TypeRef.read target).toOption.getD (.simple target)
  | list element => element.toTypeRef.asList

/-- A text without `[]` at its end, given from the end to the start. -/
def withoutListMark? : List Char → Option (List Char)
  | ']' :: '[' :: rest => some rest
  | _ => none

theorem length_of_withoutListMark? {reversed rest : List Char}
    (found : withoutListMark? reversed = some rest) : rest.length < reversed.length := by
  unfold withoutListMark? at found
  split at found
  · simp only [Option.some.injEq] at found
    simp only [found, List.length_cons]
    omega
  · simp at found

/-- The shape that a text names, given from its end to its start: every `[]` at the end makes a list.
Blanks at either end do not count. -/
def ofReversed (reversed : List Char) : Shape :=
  let trimmed := reversed.dropWhile Text.isBlank
  match _marked : withoutListMark? trimmed with
  | some rest => list (ofReversed rest)
  | none =>
    let name := String.ofList (Text.trimStart trimmed.reverse)
    if isPrimitiveName name then primitive name else reference name
termination_by reversed.length
decreasing_by
  exact Nat.lt_of_lt_of_le (length_of_withoutListMark? _marked)
    (List.dropWhile_suffix Text.isBlank).length_le

/-- The shape that a text such as `User[]` names. -/
def ofText (text : String) : Shape :=
  ofReversed text.toList.reverse

def text : Shape → String
  | primitive name => name
  | reference target => target
  | list element => element.text ++ TypeRef.listMark true

def isList : Shape → Bool
  | list _ => true
  | _ => false

end Shape

end ApiDef
