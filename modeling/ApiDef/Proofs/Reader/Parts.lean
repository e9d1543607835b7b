import ApiDef.Reader.Document
set_option autoImplicit false

/-!
# Readers in parts

A type is read in three parts: its name, its arguments and its list mark. Reading the parts one after
the other is reading the type. A comment is read in two, its mark and its text, and so is a data type or
a method: its name, and what the bracket behind the name opens.
-/

namespace ApiDef.Reader

open Text

/-- The generic arguments of a type, if they start here. -/
def typeArguments (inner : Unit → Advancing TypeRef) : Reader (List TypeRef) := do
  if ← eat '<' then separated skipBlanks (inner ()) '>' else pure []

/-- Whether a list mark stands here. -/
def listMark : Reader Bool := do
  if ← eat '[' then
    require ']'
    pure true
  else pure false

theorem listMark_bind (name : String) (generics : List TypeRef) :
    (do
      let isList ← listMark
      pure (TypeRef.mk name isList generics))
      = (do
        if ← eat '[' then
          require ']'
          pure (TypeRef.mk name true generics)
        else pure (TypeRef.mk name false generics)) := by
  unfold listMark
  rw [bind_assoc]
  congr 1
  funext found
  cases found with
  | true => simp
  | false => simp

theorem typeRefLevel_eq (inner : Unit → Advancing TypeRef) :
    typeRefLevel inner = (do
      let name ← identifier []
      let generics ← typeArguments inner
      let isList ← listMark
      pure (TypeRef.mk name isList generics)) := by
  unfold typeRefLevel typeArguments
  simp only [listMark_bind, bind_assoc]
  congr 1
  funext name
  congr 1
  funext opened
  cases opened with
  | true => simp
  | false => simp

/-- The text of a comment whose mark has been taken. -/
def commentBehindMark (lastCodeLine : Nat) (start : Position) (slashed : Bool) :
    Reader (Option PendingComment) := do
  let text ← takeWhile (· ≠ '\n')
  let stop ← here
  pure (some ⟨String.ofList (dropCarriageReturn text), slashed, lastCodeLine < start.line,
    ⟨start, stop⟩⟩)

theorem comment?_eq (lastCodeLine : Nat) :
    comment? lastCodeLine = (do
      let start ← here
      if ← eatText ['/', '/'] then commentBehindMark lastCodeLine start true
      else if ← eat '#' then commentBehindMark lastCodeLine start false
      else pure none) := by
  unfold comment? commentBehindMark
  congr 1
  funext start
  congr 1
  funext slashed
  cases slashed with
  | true => simp
  | false => simp

/-- An equals sign behind blanks, if one stands there. -/
def assigned {α : Type} (value : α) : Reader (Option α) := do
  skipBlanks
  if ← eat '=' then pure (some value) else pure none

/-- What is left of a data type in front of its opening brace. -/
def dataTypeBehindName (grammar : Grammar) (tags : List (Tag × Span)) (name : String)
    (namePlace : Span) : Reader Entity :=
  if grammar.types then do
    ask (.tags .type tags)
    ask (.declare name)
    require '{'
    let properties ← body grammar.maxNestingDepth grammar.maxNestingDepth
    pure (.dataType ⟨name, none, tags.map (·.1), properties⟩)
  else failAt namePlace .dataTypesForbidden

/-- What is left of a method in front of its opening parenthesis. -/
def methodBehindName (grammar : Grammar) (tags : List (Tag × Span)) (name : String)
    (namePlace : Span) : Reader Entity :=
  if grammar.methods then do
    require '('
    let declared ← method grammar.maxNestingDepth tags name namePlace
    pure (.method declared)
  else failAt namePlace .methodsForbidden

/-- The bracket behind a name tells what is declared. -/
def declarationBehindName (grammar : Grammar) (tags : List (Tag × Span)) (name : String)
    (namePlace : Span) : Reader Entity := do
  if ← lookingAt '{' then dataTypeBehindName grammar tags name namePlace
  else if ← lookingAt '(' then methodBehindName grammar tags name namePlace
  else unexpected [.mark "(", .openBrace]

theorem namedDeclaration_eq (grammar : Grammar) (tags : List (Tag × Span)) :
    namedDeclaration grammar tags = (do
      let (name, namePlace) ← spanned (identifier [.mark "@", .mark "enum"])
      skipTrivia
      declarationBehindName grammar tags name namePlace) := rfl

end ApiDef.Reader
