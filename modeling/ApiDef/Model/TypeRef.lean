set_option autoImplicit false

/-!
# Type references

A type is named, may have generic arguments, and may be a list: `string`, `User[]`,
`Map<string, User[]>[]`.
-/

namespace ApiDef

/-- A reference to a type. -/
inductive TypeRef where
  | mk (name : String) (isList : Bool) (generics : List TypeRef)
deriving Repr, Inhabited

namespace TypeRef

def name : TypeRef → String
  | mk name _ _ => name

def isList : TypeRef → Bool
  | mk _ isList _ => isList

def generics : TypeRef → List TypeRef
  | mk _ _ generics => generics

mutual

/-- Equality of references, decided from the outside in. -/
def decideEq : (left right : TypeRef) → Decidable (left = right)
  | mk leftName leftList leftGenerics, mk rightName rightList rightGenerics =>
    if names : leftName = rightName then
      if lists : leftList = rightList then
        match decideEqAll leftGenerics rightGenerics with
        | isTrue generics => isTrue (by rw [names, lists, generics])
        | isFalse differ => isFalse fun same => differ (by injection same)
      else isFalse fun same => lists (by injection same)
    else isFalse fun same => names (by injection same)

def decideEqAll : (left right : List TypeRef) → Decidable (left = right)
  | [], [] => isTrue rfl
  | [], _ :: _ => isFalse fun same => nomatch same
  | _ :: _, [] => isFalse fun same => nomatch same
  | left :: lefts, right :: rights =>
    match decideEq left right with
    | isTrue heads =>
      match decideEqAll lefts rights with
      | isTrue tails => isTrue (by rw [heads, tails])
      | isFalse differ => isFalse fun same => differ (by injection same)
    | isFalse differ => isFalse fun same => differ (by injection same)

end

instance : DecidableEq TypeRef := decideEq

def objectName : String := "object"

def simple (name : String) : TypeRef := mk name false []

def listOf (name : String) : TypeRef := mk name true []

def asList : TypeRef → TypeRef
  | mk name _ generics => mk name true generics

def element : TypeRef → TypeRef
  | mk name _ generics => mk name false generics

/-- A bare name: neither a list nor generic. -/
def isSimple (type : TypeRef) : Bool :=
  !type.isList && type.generics.isEmpty

def isObject (type : TypeRef) : Bool :=
  type.name = objectName && type.generics.isEmpty

def isNamed (type : TypeRef) (name : String) : Bool :=
  type.isSimple && type.name = name

def listMark (isList : Bool) : String :=
  if isList then "[]" else ""

mutual

def text : TypeRef → String
  | mk name isList [] => name ++ listMark isList
  | mk name isList (first :: others) =>
    name ++ "<" ++ text first ++ textOthers others ++ ">" ++ listMark isList

/-- The generic arguments after the first one, each behind a comma and a space. -/
def textOthers : List TypeRef → String
  | [] => ""
  | type :: others => ", " ++ text type ++ textOthers others

end

end TypeRef

end ApiDef
