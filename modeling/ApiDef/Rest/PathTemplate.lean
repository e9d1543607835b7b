import ApiDef.Text.Blank
set_option autoImplicit false

/-!
# Path templates

A path template is text with variables in braces: `{name}` or `{name:pattern}`. Braces nest inside
a variable, and a brace that is never closed is text like any other.
-/

namespace ApiDef

/-- A variable of a path template. -/
structure PathVariable where
  name : String
  pattern : Option String
deriving DecidableEq, Repr

namespace PathTemplate

open Text

/-- The text up to the brace that closes an open one, and the text after it. The number counts the
braces opened since. -/
def splitAtClose? : Nat → List Char → Option (List Char × List Char)
  | _, [] => none
  | depth, c :: cs =>
    if c = '{' then (splitAtClose? (depth + 1) cs).map fun (inside, after) => (c :: inside, after)
    else if c = '}' then
      match depth with
      | 0 => some ([], cs)
      | outer + 1 => (splitAtClose? outer cs).map fun (inside, after) => (c :: inside, after)
    else (splitAtClose? depth cs).map fun (inside, after) => (c :: inside, after)

/-- The closing brace stands between the two parts. -/
theorem eq_append_of_splitAtClose? {depth : Nat} {cs inside after : List Char}
    (split : splitAtClose? depth cs = some (inside, after)) : cs = inside ++ '}' :: after := by
  induction cs generalizing depth inside with
  | nil => simp [splitAtClose?] at split
  | cons c cs ih =>
    simp only [splitAtClose?] at split
    split at split
    · obtain ⟨⟨inner, others⟩, found, same⟩ := Option.map_eq_some_iff.mp split
      simp only [Prod.mk.injEq] at same
      obtain ⟨rfl, rfl⟩ := same
      rw [ih found]
      rfl
    · split at split
      next closing =>
        cases depth with
        | zero =>
          simp only [Option.some.injEq, Prod.mk.injEq] at split
          obtain ⟨rfl, rfl⟩ := split
          rw [closing]
          rfl
        | succ outer =>
          obtain ⟨⟨inner, others⟩, found, same⟩ := Option.map_eq_some_iff.mp split
          simp only [Prod.mk.injEq] at same
          obtain ⟨rfl, rfl⟩ := same
          rw [ih found]
          rfl
      next =>
        obtain ⟨⟨inner, others⟩, found, same⟩ := Option.map_eq_some_iff.mp split
        simp only [Prod.mk.injEq] at same
        obtain ⟨rfl, rfl⟩ := same
        rw [ih found]
        rfl

/-- The variable that the text between two braces describes: a trimmed name, and after the first
colon a pattern. -/
def variableOf (body : List Char) : PathVariable :=
  match cutAt? ':' body with
  | some (name, pattern) => ⟨trim (String.ofList name), some (String.ofList pattern)⟩
  | none => ⟨trim (String.ofList body), none⟩

/-- The variables of a template, from left to right. -/
def pathVariablesOf : List Char → List PathVariable
  | [] => []
  | c :: cs =>
    if c = '{' then
      match _split : splitAtClose? 0 cs with
      | some (body, after) => variableOf body :: pathVariablesOf after
      | none => []
    else pathVariablesOf cs
termination_by cs => cs.length
decreasing_by
  · rw [eq_append_of_splitAtClose? _split]
    simp only [List.length_cons, List.length_append]
    omega
  · simp

def pathVariables (path : String) : List PathVariable :=
  pathVariablesOf path.toList

/-- A path is the root, or starts with a slash and does not end with one. -/
def isWellShaped (path : String) : Bool :=
  path = "/" || (path.toList.head? = some '/' && path.toList.getLast? != some '/')

end PathTemplate

end ApiDef
