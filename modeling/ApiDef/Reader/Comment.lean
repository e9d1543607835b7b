import ApiDef.Reader.Lexical
set_option autoImplicit false

/-!
# Comments and descriptions

A comment that stands in front of a declaration may describe it. The comments since the last piece
of code are kept, the latest first; those that run without a gap up to the line of the declaration
are its description.
-/

namespace ApiDef.Reader

open Text

/-- A comment whose use is not decided yet. -/
structure PendingComment where
  text : String
  /-- The comment starts with two slashes. -/
  slashed : Bool
  /-- No code stands before the comment on its line. -/
  alone : Bool
  span : Span
deriving DecidableEq, Repr

/-- A comment, if one starts here; the last piece of code stands on the given line. -/
def comment? (lastCodeLine : Nat) : Reader (Option PendingComment) := do
  let start ← here
  let slashed ← eatText ['/', '/']
  let hashed ← if slashed then pure false else eat '#'
  if slashed || hashed then
    let text ← takeWhile (· ≠ '\n')
    let stop ← here
    pure (some ⟨String.ofList (dropCarriageReturn text), slashed, lastCodeLine < start.line,
      ⟨start, stop⟩⟩)
  else pure none

theorem advances_comment? (lastCodeLine : Nat) :
    (comment? lastCodeLine).Advances fun found => found.isSome := by
  refine .andThen fun _ =>
    (advances_eatText (List.cons_ne_nil _ _)).bind fun slashed notSlashed => ?_
  simp only [Bool.not_eq_true] at notSlashed
  subst notSlashed
  refine (advances_eat '#').bind fun hashed notHashed => ?_
  simp only [Bool.not_eq_true] at notHashed
  subst notHashed
  exact advances_pure (by simp)

/-- The comments that describe what starts on the given line, and the earlier ones. Both lists have
the latest comment first. -/
def splitDescription (line : Nat) :
    List PendingComment → List PendingComment × List PendingComment
  | [] => ([], [])
  | comment :: earlier =>
    if comment.slashed && comment.alone && comment.span.start.line + 1 = line then
      let (describing, others) := splitDescription comment.span.start.line earlier
      (comment :: describing, others)
    else ([], comment :: earlier)

/-- The description that a run of comments gives, one line each; no comments give none. -/
def descriptionOf (describing : List PendingComment) : Option String :=
  if describing.isEmpty then none
  else some (String.intercalate "\n" (describing.reverse.map PendingComment.text))

/-- The comments since the last piece of code, the latest first, and the line of that code. -/
structure Pending where
  comments : List PendingComment
  lastCodeLine : Nat
deriving DecidableEq, Repr

def Pending.add (pending : Pending) (comment : PendingComment) : Pending :=
  { pending with comments := comment :: pending.comments }

/-- Whether a tag or a name stands at the start of a text. A digit counts, so that the
message about it is the one for names. -/
def startsDeclaration (cs : List Char) : Bool :=
  (cs.head?.map fun c => c = '@' || isIdentifierChar c).getD false

end ApiDef.Reader
