import ApiDef.Model.TypeRef
import ApiDef.Text.Blank
set_option autoImplicit false

/-!
# Type tables

The type names that are known, each with its number of generic arguments.
-/

namespace ApiDef

open Text

def builtinTypes : List String :=
  ["void", "integer", "double", "float", "long", "char", "byte", "string", "boolean", "date"]

/-- What can be wrong with a name in a type. -/
inductive TypeIssue where
  | unknown (name : String)
  | genericsForbidden (name : String)
  | genericsMiscounted (name : String)
deriving DecidableEq, Repr

/-- Known type names with the number of their generic arguments. The first entry of a name counts. -/
structure TypeTable where
  arities : List (String × Nat)
deriving DecidableEq, Repr

namespace TypeTable

def arity? (table : TypeTable) (name : String) : Option Nat :=
  table.arities.lookup name

def contains (table : TypeTable) (name : String) : Bool :=
  (table.arity? name).isSome

/-- The table in which a name has the given number of arguments. -/
def insert (table : TypeTable) (name : String) (arity : Nat) : TypeTable :=
  ⟨(name, arity) :: table.arities⟩

/-- The table in which a name is known; a new name has no arguments. -/
def declare (table : TypeTable) (name : String) : TypeTable :=
  if table.contains name then table else table.insert name 0

/-- The types that are always known. -/
def builtin : TypeTable :=
  ⟨builtinTypes.map fun name => (name, 0)⟩

/-- The name and the number of arguments that a signature such as `Map<*,*>` describes. -/
def readSignature (signature : String) : String × Nat :=
  let signature := (trim signature).toList
  match cutAt? '<' signature with
  | none => (String.ofList signature, 0)
  | some (name, rest) =>
    let parameters := (rest.reverse.dropWhile (· = '>')).reverse
    (trim (String.ofList name),
      if parameters.all isBlank then 0 else parameters.count ',' + 1)

/-- The built-in types and the given ones; a later signature of a name replaces an earlier one. -/
def ofSignatures (signatures : List String) : TypeTable :=
  signatures.foldl
    (fun table signature => table.insert (readSignature signature).1 (readSignature signature).2)
    builtin

/-- What is wrong with one name and the number of its arguments. -/
def nameIssue? (table : TypeTable) (name : String) (count : Nat) : Option TypeIssue :=
  match table.arity? name with
  | none => some (.unknown name)
  | some arity =>
    if arity = count then none
    else if arity = 0 then some (.genericsForbidden name)
    else some (.genericsMiscounted name)

mutual

/-- Everything that is wrong with a type: its own name first, then its arguments from left to
right. -/
def issues (table : TypeTable) : TypeRef → List TypeIssue
  | .mk name _ generics =>
    (table.nameIssue? name generics.length).toList ++ issuesOfAll table generics

def issuesOfAll (table : TypeTable) : List TypeRef → List TypeIssue
  | [] => []
  | type :: others => issues table type ++ issuesOfAll table others

end

end TypeTable

end ApiDef
