import ApiDef.Reader.Lexical
set_option autoImplicit false

/-!
# Reading type references

A name, generic arguments in angle brackets right behind it, and a list mark right behind those.
Blanks may stand only inside the angle brackets. The nesting limit is what ends the recursion: each
level of arguments uses up one of the levels that are left.
-/

namespace ApiDef.Reader

open Text

/-- One level of a type reference; `inner` reads the generic arguments. -/
def typeRefLevel (inner : Unit → Advancing TypeRef) : Reader TypeRef := do
  let name ← identifier []
  let generics ← if ← eat '<' then separated skipBlanks (inner ()) '>' else pure []
  if ← eat '[' then
    require ']'
    pure ⟨name, true, generics⟩
  else pure ⟨name, false, generics⟩

theorem advances_typeRefLevel (inner : Unit → Advancing TypeRef) :
    (typeRefLevel inner).Advances fun _ => True :=
  (advances_identifier []).bind fun _ never => absurd trivial never

/-- A type reference of at most as many levels as are left; `limit` is how many there are in all. -/
def typeRef (limit : Nat) : Nat → Advancing TypeRef
  | 0 => ⟨fail (.tooDeep limit), advances_fail⟩
  | levels + 1 =>
    ⟨typeRefLevel fun _ => typeRef limit levels, advances_typeRefLevel _⟩

/-- A whole text that is one type reference with blanks around it. -/
def wholeTypeRef (limit : Nat) : Reader TypeRef := do
  skipBlanks
  let type ← (typeRef limit (limit + 1)).toReader
  skipBlanks
  if ← look List.isEmpty then pure type
  else unexpected [.mark "<", .mark "[]", .endOfInput]

def spanned {α : Type} (reader : Reader α) : Reader (α × Span) := do
  let start ← here
  let value ← reader
  let stop ← here
  pure (value, ⟨start, stop⟩)

theorem advances_spanned {α : Type} {reader : Reader α}
    (advances : reader.Advances fun _ => True) :
    (spanned reader).Advances fun _ => True :=
  .andThen fun _ => advances.bind fun _ never => absurd trivial never

end ApiDef.Reader
