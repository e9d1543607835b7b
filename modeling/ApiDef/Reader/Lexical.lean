import ApiDef.Reader.Basic
import ApiDef.Text.Literal
set_option autoImplicit false

/-!
# Words, gaps and lists

The smallest readers: identifiers, literals, blanks, comments, and lists in brackets.
-/

namespace ApiDef.Reader

open Text

variable {α : Type}

def skipBlanks : Reader Unit := do
  let _ ← takeWhile isBlank

/-- Skips one comment if one starts here, up to the end of its line. -/
def skipComment : Reader Bool where
  run start :=
    if startsComment start.rest then
      let passed := start.rest.takeWhile (· ≠ '\n')
      .done true (start.pass passed (start.rest.dropWhile (· ≠ '\n'))) []
    else .done false start []
  forward := by
    intro start value after asked same
    split at same
    next =>
      simp only [Outcome.done.injEq] at same
      obtain ⟨-, rfl, -⟩ := same
      exact Cursor.reaches_pass List.takeWhile_append_dropWhile
    next =>
      simp only [Outcome.done.injEq] at same
      obtain ⟨-, rfl, -⟩ := same
      exact .refl start

/-- A text that starts a comment does not start with a line feed. -/
theorem exists_of_startsComment {cs : List Char} (starts : startsComment cs = true) :
    ∃ c others, cs = c :: others ∧ c ≠ '\n' := by
  unfold startsComment at starts
  split at starts
  next others => exact ⟨_, others, rfl, by decide⟩
  next others => exact ⟨_, _, rfl, by decide⟩
  next => simp at starts

theorem advances_skipComment : skipComment.Advances (· = true) := by
  intro start value after asked same holds
  simp only [skipComment] at same
  split at same
  next starts =>
    obtain ⟨c, others, whole, notLineFeed⟩ := exists_of_startsComment starts
    simp only [Outcome.done.injEq] at same
    obtain ⟨-, rfl, -⟩ := same
    have shorter := (List.dropWhile_suffix (l := others) (fun c => decide (c ≠ '\n'))).length_le
    simp only [Cursor.pass, whole]
    rw [List.dropWhile_cons_of_pos (by simpa using notLineFeed)]
    simpa using Nat.lt_succ_of_le shorter
  next =>
    simp only [Outcome.done.injEq] at same
    exact absurd (same.1.trans holds) Bool.false_ne_true

/-- One round of skipping: blanks, then a comment if there is one. -/
def triviaRound (_ : Unit) : Reader (Round Unit Empty) := do
  skipBlanks
  if ← skipComment then pure (.next [] ()) else pure (.stop [])

theorem advances_triviaRound (state : Unit) : (triviaRound state).Advances Round.GoesOn := by
  refine .andThen fun _ => advances_skipComment.bind fun found notFound => ?_
  simp only [notFound]
  exact advances_pure fun goesOn => goesOn

def skipTrivia : Reader Unit := do
  let _ ← rounds triviaRound advances_triviaRound ()

/-- An identifier, if one starts here. -/
def identifier? : Reader (Option String) where
  run start :=
    if (start.rest.head?.map isIdentifierStart).getD false then
      let passed := start.rest.takeWhile isIdentifierChar
      .done (some (String.ofList passed))
        (start.pass passed (start.rest.dropWhile isIdentifierChar)) []
    else .done none start []
  forward := by
    intro start value after asked same
    split at same
    next =>
      simp only [Outcome.done.injEq] at same
      obtain ⟨-, rfl, -⟩ := same
      exact Cursor.reaches_pass List.takeWhile_append_dropWhile
    next =>
      simp only [Outcome.done.injEq] at same
      obtain ⟨-, rfl, -⟩ := same
      exact .refl start

theorem advances_identifier? : identifier?.Advances fun found => found.isSome := by
  intro start value after asked same holds
  simp only [identifier?] at same
  split at same
  next starts =>
    simp only [Outcome.done.injEq] at same
    obtain ⟨-, rfl, -⟩ := same
    cases whole : start.rest with
    | nil => simp [whole] at starts
    | cons c others =>
      have inside := isIdentifierChar_of_isIdentifierStart (c := c) (by simpa [whole] using starts)
      have shorter := (List.dropWhile_suffix (l := others) isIdentifierChar).length_le
      simp only [Cursor.pass]
      rw [List.dropWhile_cons_of_pos inside]
      simpa using Nat.lt_succ_of_le shorter
  next =>
    simp only [Outcome.done.injEq] at same
    rw [← same.1] at holds
    simp at holds

/-- An identifier, which must start here; `also` is what else could have stood here. -/
def identifier (also : List Expected) : Reader String := do
  match ← identifier? with
  | some name => pure name
  | none => unexpected (also ++ [.identifier])

theorem advances_identifier (also : List Expected) :
    (identifier also).Advances fun _ => True := by
  refine advances_identifier?.bind fun found notFound => ?_
  cases found with
  | some => simp at notFound
  | none => exact advances_unexpected

def literalExpected : Literal.Fault → List Expected
  | .missing => [.mark "false", .mark "null", .mark "true", .number, .string]
  | .unterminated quote => [.mark (String.singleton quote), .character]
  | .badEscape => [.escapeSequence]
  | .badNumber => [.digit]

/-- A literal as it was read: its value and its spelling. -/
structure SpelledLiteral where
  value : Literal
  spelling : String
deriving DecidableEq, Repr

/-- A literal, which must start here. -/
def literal : Reader SpelledLiteral where
  run start :=
    match Literal.scan start.rest with
    | .found value passed rest =>
      .done ⟨value, String.ofList passed⟩ (start.pass passed rest) []
    | .failed fault passed rest =>
      .failed ⟨.unexpected (literalExpected fault) rest.head?, (start.pass passed rest).nextSpan⟩ []
  forward := by
    intro start value after asked same
    have whole := Literal.whole_scan start.rest
    split at same
    next found =>
      simp only [Outcome.done.injEq] at same
      obtain ⟨-, rfl, -⟩ := same
      rw [found] at whole
      exact Cursor.reaches_pass whole
    next => simp at same

/-- What may stand after an item of a list, in the order of messages. -/
def separators (close : Char) : List Expected :=
  if close < ',' then [.mark (String.singleton close), .mark ","]
  else [.mark ",", .mark (String.singleton close)]

/-- One item of a list with the gaps around it, and the comma or bracket after it. -/
def separatedRound (gap : Reader Unit) (item : Advancing α) (close : Char) (_ : Unit) :
    Reader (Round Unit α) := do
  gap
  let value ← item.toReader
  gap
  if ← eat close then pure (.stop [value])
  else if ← eat ',' then pure (.next [value] ())
  else unexpected (separators close)

theorem advances_separatedRound (gap : Reader Unit) (item : Advancing α) (close : Char)
    (state : Unit) : (separatedRound gap item close state).Advances Round.GoesOn :=
  .andThen fun _ => item.advances.bind fun _ never => absurd trivial never

/-- The items of a list, at least one, up to and including its closing bracket. -/
def separated (gap : Reader Unit) (item : Advancing α) (close : Char) : Reader (List α) :=
  rounds (separatedRound gap item close) (advances_separatedRound gap item close) ()

end ApiDef.Reader
