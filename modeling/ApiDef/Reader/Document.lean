import ApiDef.Reader.Declaration
set_option autoImplicit false

/-!
# Reading documents

A document is a run of declarations with comments between them. The comments that describe a
declaration go into it, and every other comment is an entity of its own. The reader sees no more of the
options than the grammar, so what it comes to is the same whatever the answers to its questions are.
-/

namespace ApiDef

open Text

/-- An entity with the span that it was read from. -/
structure Item where
  entity : Entity
  span : Span
deriving DecidableEq, Repr

namespace Reader

def PendingComment.item (comment : PendingComment) : Item :=
  ⟨.comment comment.text, comment.span⟩

/-- The pending comments as items, in the order of the text. -/
def commentItems (comments : List PendingComment) : List Item :=
  comments.reverse.map PendingComment.item

/-- A declaration with its description, behind the comments in front of it that do not describe
it. -/
def describedDeclaration (grammar : Grammar) (pending : Pending) :
    Reader (Round Pending Item) := do
  let start ← here
  let (describing, others) := splitDescription start.line pending.comments
  let entity ← declaration grammar
  let stop ← here
  pure (.next (commentItems others ++ [⟨entity.describe (descriptionOf describing), ⟨start, stop⟩⟩])
    ⟨[], stop.line⟩)

/-- A comment, a declaration, or the end of the text. -/
def documentRound (grammar : Grammar) (pending : Pending) : Reader (Round Pending Item) := do
  skipBlanks
  if ← look List.isEmpty then pure (.stop (commentItems pending.comments))
  else
    match ← comment? pending.lastCodeLine with
    | some comment => pure (.next [] (pending.add comment))
    | none =>
      if ← look startsDeclaration then describedDeclaration grammar pending
      else unexpected [.mark "@", .comment, .endOfInput, .identifier]

theorem advances_keywordDeclaration (grammar : Grammar) (tags : List (Tag × Span)) :
    (keywordDeclaration grammar tags).Advances fun _ => True := by
  unfold keywordDeclaration
  split
  · exact .andThen fun _ => .andThen fun _ =>
      (advances_enumeration _).bind fun _ never => absurd trivial never
  · exact advances_fail

theorem advances_declaration (grammar : Grammar) :
    (declaration grammar).Advances fun _ => True := by
  refine .andThen fun tags => .andThen fun isEnumeration => ?_
  cases isEnumeration with
  | true => exact advances_keywordDeclaration grammar tags
  | false =>
    exact (advances_spanned (advances_identifier _)).bind fun _ never => absurd trivial never

theorem advances_documentRound (grammar : Grammar) (pending : Pending) :
    (documentRound grammar pending).Advances Round.GoesOn := by
  refine .andThen fun _ => .andThen fun ended => ?_
  cases ended with
  | true => exact advances_pure fun goesOn => goesOn
  | false =>
    refine (advances_comment? _).bind fun found notFound => ?_
    cases found with
    | some => simp at notFound
    | none =>
      refine .andThen fun starts => ?_
      cases starts with
      | false => exact advances_unexpected
      | true =>
        exact .andThen fun _ =>
          (advances_declaration grammar).bind fun _ never => absurd trivial never

def document (grammar : Grammar) : Reader (List Item) :=
  rounds (documentRound grammar) (advances_documentRound grammar) ⟨[], 0⟩

end Reader

end ApiDef
