import ApiDef.Reader.TypeRef
set_option autoImplicit false

/-!
# Reading tags

`@` and a name, and behind it a list of arguments and options in parentheses. An identifier counts
as the key of an option only if an equals sign follows it.
-/

namespace ApiDef.Reader

open Text

/-- The key of an option and the equals sign behind it, if both stand here. -/
def optionKey? : Reader (Option String) :=
  attempt do
    match ← identifier? with
    | none => pure none
    | some key =>
      skipBlanks
      if ← eat '=' then pure (some key) else pure none

/-- One argument, or one option with its key. -/
inductive TagItem where
  | argument (value : String)
  | option (key value : String)
deriving DecidableEq, Repr

def TagItem.addTo (tag : Tag) : TagItem → Tag
  | argument value => tag.withArgument value
  | option key value => tag.withOption key value

/-- One argument or option; the text of its literal counts, not its kind. -/
def tagItem : Reader TagItem := do
  match ← optionKey? with
  | some key =>
    skipBlanks
    let found ← literal
    pure (.option key found.value.plain)
  | none =>
    let found ← literal
    pure (.argument found.value.plain)

theorem advances_literal : literal.Advances fun _ => True := by
  intro start value after asked same _
  simp only [literal] at same
  have whole := Literal.whole_scan start.rest
  split at same
  next found =>
    have taken := Literal.passed_ne_nil_of_scan found
    simp only [Outcome.done.injEq] at same
    obtain ⟨-, rfl, -⟩ := same
    rw [found, Literal.Scan.whole_found] at whole
    have := List.length_pos_iff.mpr taken
    rw [← whole]
    simp only [Cursor.pass, List.length_append]
    omega
  next => simp at same

theorem advances_tagItem : tagItem.Advances fun _ => True := by
  refine .andThen fun key => ?_
  cases key with
  | none => exact advances_literal.bind fun _ never => absurd trivial never
  | some key =>
    exact .andThen fun _ => advances_literal.bind fun _ never => absurd trivial never

/-- The items of a tag, if a list of them starts here. -/
def tagItems : Reader (List TagItem) := do
  if ← eat '(' then
    skipBlanks
    if ← eat ')' then pure []
    else separated skipBlanks ⟨tagItem, advances_tagItem⟩ ')'
  else pure []

/-- A tag after its `@`. -/
def tagBody : Reader Tag := do
  let name ← identifier []
  let items ← tagItems
  pure (items.foldl TagItem.addTo ⟨"@" ++ name, [], ∅⟩)

/-- Skips what stands in front of a tag, and reads the tag if there is one. -/
def tagRound (_ : Unit) : Reader (Round Unit (Tag × Span)) := do
  skipTrivia
  let start ← here
  if ← eat '@' then
    let tag ← tagBody
    let stop ← here
    pure (.next [(tag, ⟨start, stop⟩)] ())
  else pure (.stop [])

theorem advances_tagRound (state : Unit) :
    (tagRound state).Advances Round.GoesOn := by
  refine .andThen fun _ => .andThen fun _ => (advances_eat '@').bind fun found notFound => ?_
  simp only [notFound]
  exact advances_pure fun goesOn => goesOn

/-- Any number of tags, and the blanks and comments around them. -/
def tags : Reader (List (Tag × Span)) :=
  rounds tagRound advances_tagRound ()

end ApiDef.Reader
