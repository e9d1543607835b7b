import ApiDef.Proofs.Reader.Gap
import ApiDef.Proofs.Text.Places
import ApiDef.Token
set_option autoImplicit false

/-!
# The comments in a text

Where the comments of a text start does not depend on how the rest of it is cut into lexemes: one
character that starts neither a string nor a comment can be skipped, and a string as the grammar has
it ends where the lexeme ends.
-/

namespace ApiDef

open Text

namespace Token

/-- Tokens with the places where they start. -/
def placed (place : Position) : List Token → List (Position × Token)
  | [] => []
  | token :: others => (place, token) :: placed (place.advanceOver token.value.toList) others

/-- The comments among lexemes, with the places where they start. -/
def commentsAmong (place : Position) : List Lexeme → List (Position × List Char)
  | [] => []
  | lexeme :: others =>
    let later := commentsAmong (place.advanceOver lexeme.text) others
    if lexeme.shape = .comment then (place, lexeme.text) :: later else later

/-- The shape of the lexemes that become tokens of a kind. -/
def Kind.shape : Kind → Shape
  | blank => .blank
  | comment => .comment
  | tagName => .tag
  | string => .string
  | word | keyword | methodName | typeName | enumName | dataTypeName => .word
  | openBrace | closeBrace | colon | other => .mark

theorem shape_kind (lexeme : Lexeme) (previous : Option Kind) (next : Option Char) :
    (lexeme.kind previous next).shape = lexeme.shape := by
  have ofWord (word : String) : (wordKind word previous next).shape = .word := by
    unfold wordKind
    repeat' split
    all_goals rfl
  have ofMark (text : List Char) : (markKind text).shape = .mark := by
    unfold markKind
    repeat' split
    all_goals rfl
  unfold Lexeme.kind
  cases lexeme.shape with
  | blank | comment | tag | string => rfl
  | word => exact ofWord _
  | mark => exact ofMark _

theorem kind_eq_comment_iff (lexeme : Lexeme) (previous : Option Kind) (next : Option Char) :
    lexeme.kind previous next = .comment ↔ lexeme.shape = .comment := by
  rw [← shape_kind lexeme previous next]
  cases lexeme.kind previous next <;> decide

/-- The kinds of the tokens do not matter for which of them are comments. -/
theorem comments_placed_classify (place : Position) (previous : Option Kind)
    (lexemes : List Lexeme) :
    (placed place (classify previous lexemes)).filter (fun entry => entry.2.kind = .comment)
      = (commentsAmong place lexemes).map fun entry =>
        (entry.1, ⟨.comment, String.ofList entry.2⟩) := by
  induction lexemes generalizing place previous with
  | nil => rfl
  | cons lexeme others ih =>
    rw [classify, placed, commentsAmong, List.filter_cons, ih, String.toList_ofList]
    simp only [decide_eq_true_eq, kind_eq_comment_iff]
    by_cases isComment : lexeme.shape = .comment
    · have kind := (kind_eq_comment_iff lexeme previous (nextChar others)).mpr isComment
      rw [if_pos isComment, if_pos isComment, List.map_cons, kind]
    · rw [if_neg isComment, if_neg isComment]

theorem not_before_of_mem_commentsAmong {place : Position} {lexemes : List Lexeme}
    {comment : Position × List Char} (member : comment ∈ commentsAmong place lexemes) :
    comment.1.before place = false := by
  induction lexemes generalizing place with
  | nil => exact absurd member List.not_mem_nil
  | cons lexeme others ih =>
    have later (inside : comment ∈ commentsAmong (place.advanceOver lexeme.text) others) :
        comment.1.before place = false :=
      Position.not_before_trans (Position.not_before_advanceOver place lexeme.text) (ih inside)
    rw [commentsAmong] at member
    by_cases isComment : lexeme.shape = .comment
    · rw [if_pos isComment] at member
      rcases List.mem_cons.mp member with rfl | inside
      · exact Position.before_self place
      · exact later inside
    · rw [if_neg isComment] at member
      exact later member

/-!
## Runs of characters
-/

/-- A character that starts neither a string nor a comment. -/
def isInert (c : Char) : Bool :=
  c ≠ '"' && c ≠ '\'' && c ≠ '#' && c ≠ '/'

theorem ne_of_holds {p : Char → Bool} {c other : Char} (holds : p c = true) (fails : p other = false) :
    c ≠ other := by
  rintro rfl
  rw [holds] at fails
  cases fails

/-- A class of characters is inert if none of the four that start something belongs to it. -/
theorem isInert_of_holds {p : Char → Bool} {c : Char} (holds : p c = true)
    (quotes : p '"' = false ∧ p '\'' = false) (marks : p '#' = false ∧ p '/' = false) :
    isInert c = true := by
  simp only [isInert, Bool.and_eq_true, decide_eq_true_eq]
  exact ⟨⟨⟨ne_of_holds holds quotes.1, ne_of_holds holds quotes.2⟩, ne_of_holds holds marks.1⟩,
    ne_of_holds holds marks.2⟩

theorem isInert_of_isIdentifierChar {c : Char} (inside : isIdentifierChar c = true) :
    isInert c = true :=
  isInert_of_holds inside (by decide) (by decide)

theorem isInert_of_isBlank {c : Char} (blank : isBlank c = true) : isInert c = true :=
  isInert_of_holds blank (by decide) (by decide)

theorem not_startsComment_of_isInert {c : Char} (inert : isInert c = true) (cs : List Char) :
    startsComment (c :: cs) = false := by
  simp only [isInert, Bool.and_eq_true, decide_eq_true_eq] at inert
  unfold startsComment
  split
  next same => exact absurd (List.cons.inj same).1 inert.1.2
  next same => exact absurd (List.cons.inj same).1 inert.2
  next => rfl

theorem not_isBlank_of_startsComment {c : Char} {cs : List Char}
    (starts : startsComment (c :: cs) = true) : ¬isBlank c := by
  unfold startsComment at starts
  split at starts
  next same =>
    rw [(List.cons.inj same).1]
    decide
  next same =>
    rw [(List.cons.inj same).1]
    decide
  next => cases starts

theorem firstLexeme_of_isBlank (c : Char) (cs : List Char) (blank : isBlank c = true) :
    firstLexeme c cs = (⟨.blank, c :: cs.takeWhile isBlank⟩, cs.dropWhile isBlank) := by
  rw [firstLexeme, if_pos blank]

theorem firstLexeme_of_isIdentifierChar (c : Char) (cs : List Char)
    (inside : isIdentifierChar c = true) :
    firstLexeme c cs
      = (⟨.word, c :: cs.takeWhile isIdentifierChar⟩, cs.dropWhile isIdentifierChar) := by
  have inert := isInert_of_isIdentifierChar inside
  have notComment := not_startsComment_of_isInert inert cs
  have notTag : c ≠ '@' := ne_of_holds inside (by decide)
  simp only [isInert, Bool.and_eq_true, decide_eq_true_eq] at inert
  simp [firstLexeme, Reader.not_isBlank_of_isIdentifierChar inside, notComment, notTag, inert, inside]

theorem firstLexeme_of_quote {quote : Char} (isQuote : quote = '"' ∨ quote = '\'') (cs : List Char) :
    firstLexeme quote cs
      = (⟨.string, quote :: (splitString quote cs).1⟩, (splitString quote cs).2) := by
  have notBlank : ¬isBlank quote := by
    rcases isQuote with rfl | rfl <;> decide
  have notComment : ¬startsComment (quote :: cs) := by
    rcases isQuote with rfl | rfl <;> exact Bool.false_ne_true
  have notTag : quote ≠ '@' := by
    rcases isQuote with rfl | rfl <;> decide
  rw [firstLexeme, if_neg notBlank, if_neg notComment, if_neg notTag, if_pos isQuote]

/-- A run of characters that would be one lexeme without a comment can be cut off. -/
theorem commentsAmong_run {p : Char → Bool} {shape : Shape} (notComment : shape ≠ .comment)
    (first : ∀ c cs, p c = true → firstLexeme c cs = (⟨shape, c :: cs.takeWhile p⟩, cs.dropWhile p))
    (place : Position) (cs : List Char) :
    commentsAmong (place.advanceOver (cs.takeWhile p)) (lexemes (cs.dropWhile p))
      = commentsAmong place (lexemes cs) := by
  cases cs with
  | nil => rfl
  | cons c cs =>
    cases inside : p c with
    | true =>
      rw [lexemes, first c cs inside, commentsAmong, if_neg notComment,
        List.takeWhile_cons_of_pos inside, List.dropWhile_cons_of_pos inside]
    | false => simp [inside]

theorem commentsAmong_blanks (place : Position) (cs : List Char) :
    commentsAmong (place.advanceOver (cs.takeWhile isBlank)) (lexemes (cs.dropWhile isBlank))
      = commentsAmong place (lexemes cs) :=
  commentsAmong_run (by rintro ⟨⟩) firstLexeme_of_isBlank place cs

theorem commentsAmong_word (place : Position) (cs : List Char) :
    commentsAmong (place.advanceOver (cs.takeWhile isIdentifierChar))
        (lexemes (cs.dropWhile isIdentifierChar))
      = commentsAmong place (lexemes cs) :=
  commentsAmong_run (by rintro ⟨⟩) firstLexeme_of_isIdentifierChar place cs

end Token

namespace Cursor

/-- The comments from a place on. -/
def comments (cursor : Cursor) : List (Position × List Char) :=
  Token.commentsAmong cursor.place (Token.lexemes cursor.rest)

variable {cursor : Cursor}

theorem not_before_of_mem_comments {comment : Position × List Char}
    (member : comment ∈ cursor.comments) : comment.1.before cursor.place = false :=
  Token.not_before_of_mem_commentsAmong member

theorem comments_of_end (ended : cursor.rest = []) : cursor.comments = [] := by
  rw [comments, ended, Token.lexemes]
  rfl

/-- One character that starts nothing does not matter. -/
theorem comments_pass_char {c : Char} {cs : List Char} (rest : cursor.rest = c :: cs)
    (inert : Token.isInert c = true) : (cursor.pass [c] cs).comments = cursor.comments := by
  have blanks := Token.commentsAmong_blanks (cursor.place.advance c) cs
  have word := Token.commentsAmong_word (cursor.place.advance c) cs
  have notComment := Token.not_startsComment_of_isInert inert cs
  have notQuote : ¬(c = '"' ∨ c = '\'') := by
    simp only [Token.isInert, Bool.and_eq_true, decide_eq_true_eq] at inert
    rintro (same | same)
    · exact inert.1.1.1 same
    · exact inert.1.1.2 same
  change Token.commentsAmong (cursor.place.advance c) (Token.lexemes cs) = _
  rw [comments, rest, Token.lexemes, Token.firstLexeme]
  by_cases blank : isBlank c
  · rw [if_pos blank]
    exact blanks.symm
  rw [if_neg blank, notComment, if_neg Bool.false_ne_true]
  by_cases tag : c = '@'
  · rw [if_pos tag]
    exact word.symm
  rw [if_neg tag, if_neg notQuote]
  by_cases inside : isIdentifierChar c
  · rw [if_pos inside]
    exact word.symm
  · rw [if_neg inside]
    rfl

theorem comments_pass {passed rest : List Char} (whole : cursor.rest = passed ++ rest)
    (inert : ∀ c ∈ passed, Token.isInert c = true) :
    (cursor.pass passed rest).comments = cursor.comments := by
  induction passed generalizing cursor with
  | nil =>
    rw [List.nil_append] at whole
    rw [comments, comments, whole]
    rfl
  | cons c passed ih =>
    obtain ⟨first, others⟩ := List.forall_mem_cons.mp inert
    have here := comments_pass_char whole first
    have there : ((cursor.pass [c] (passed ++ rest)).pass passed rest).comments
        = (cursor.pass [c] (passed ++ rest)).comments := ih rfl others
    exact there.trans here

/-- A comment goes to the end of its line. -/
theorem comments_of_startsComment (starts : startsComment cursor.rest = true) :
    cursor.comments
      = (cursor.place, cursor.rest.takeWhile (· ≠ '\n')) :: cursor.atLineEnd.comments := by
  obtain ⟨c, cs, rest, notLineFeed⟩ := Reader.exists_of_startsComment starts
  rw [rest] at starts
  have notBlank := Token.not_isBlank_of_startsComment starts
  have taken : (c :: cs).takeWhile (· ≠ '\n') = c :: cs.takeWhile (· ≠ '\n') :=
    List.takeWhile_cons_of_pos (decide_eq_true notLineFeed)
  have left : (c :: cs).dropWhile (· ≠ '\n') = cs.dropWhile (· ≠ '\n') :=
    List.dropWhile_cons_of_pos (decide_eq_true notLineFeed)
  rw [comments, rest, Token.lexemes, Token.firstLexeme, if_neg notBlank, if_pos starts,
    Token.commentsAmong, if_pos rfl, taken, comments, atLineEnd, rest, taken, left]
  rfl

end Cursor

/-!
## Literals
-/

namespace Token

variable {quote : Char}

theorem splitString_char {c : Char} (cs : List Char) (notLineFeed : c ≠ '\n') (notEscape : c ≠ '\\')
    (notQuote : c ≠ quote) :
    splitString quote (c :: cs) = (c :: (splitString quote cs).1, (splitString quote cs).2) := by
  rw [splitString.eq_def]
  simp [notLineFeed, notEscape, notQuote]

theorem splitString_escaped {c : Char} (cs : List Char) (notLineFeed : c ≠ '\n') :
    splitString quote ('\\' :: c :: cs)
      = ('\\' :: c :: (splitString quote cs).1, (splitString quote cs).2) := by
  rw [splitString.eq_def]
  simp [notLineFeed]

theorem splitString_word {word : List Char} (cs : List Char) (isQuote : quote = '"' ∨ quote = '\'')
    (inside : ∀ c ∈ word, isIdentifierChar c = true) :
    splitString quote (word ++ cs) = (word ++ (splitString quote cs).1, (splitString quote cs).2) := by
  induction word with
  | nil => rfl
  | cons c word ih =>
    obtain ⟨first, others⟩ := List.forall_mem_cons.mp inside
    have notLineFeed : c ≠ '\n' := ne_of_holds first (by decide)
    have notEscape : c ≠ '\\' := ne_of_holds first (by decide)
    have notQuote : c ≠ quote := by
      rcases isQuote with rfl | rfl
      · exact ne_of_holds first (by decide)
      · exact ne_of_holds first (by decide)
    rw [List.cons_append, splitString_char _ notLineFeed notEscape notQuote, ih others]
    rfl

theorem splitString_hex {digits : List Char} {code : Nat} (isQuote : quote = '"' ∨ quote = '\'')
    (hex : Literal.hexNumber? digits = some code) (cs : List Char) :
    splitString quote ('\\' :: 'u' :: (digits ++ cs))
      = ('\\' :: 'u' :: (digits ++ (splitString quote cs).1), (splitString quote cs).2) := by
  rw [splitString_escaped _ (by decide),
    splitString_word cs isQuote (Literal.isIdentifierChar_of_hexNumber? hex)]

/-- A string as the grammar has it ends where the lexeme ends. -/
theorem splitString_of_scanContents {cs contents passed rest : List Char}
    (isQuote : quote = '"' ∨ quote = '\'')
    (found : Literal.scanContents quote cs = .found contents passed rest) :
    splitString quote cs = (passed, rest) := by
  fun_induction Literal.scanContents quote cs generalizing contents passed with
  | case3 others notLineFeed =>
    obtain ⟨-, rfl, rfl⟩ := Literal.Scan.found.inj found
    have notEscape : quote ≠ '\\' := by
      rcases isQuote with rfl | rfl <;> decide
    rw [splitString.eq_def]
    simp [notLineFeed, notEscape]
  | case5 a b d e others character decoded _ notQuote ih =>
    obtain ⟨later, mapped, rfl⟩ := Literal.Scan.after_eq_found found
    obtain ⟨inner, scanned, rfl⟩ := Literal.Scan.map_eq_found mapped
    obtain ⟨code, hex, -⟩ := Option.bind_eq_some_iff.mp decoded
    refine (splitString_hex isQuote hex others).trans ?_
    rw [ih scanned]
    rfl
  | case8 escaped others _ _ character decoded _ notQuote ih =>
    obtain ⟨later, mapped, rfl⟩ := Literal.Scan.after_eq_found found
    obtain ⟨inner, scanned, rfl⟩ := Literal.Scan.map_eq_found mapped
    rw [splitString_escaped _ (Literal.ne_lineFeed_of_shortEscape? decoded), ih scanned]
    rfl
  | case10 c others notLineFeed notQuote notEscape ih =>
    obtain ⟨later, mapped, rfl⟩ := Literal.Scan.after_eq_found found
    obtain ⟨inner, scanned, rfl⟩ := Literal.Scan.map_eq_found mapped
    rw [splitString_char _ notLineFeed notEscape notQuote, ih scanned]
    rfl
  | _ => cases found

/-- The characters of a number start neither a string nor a comment. -/
theorem isInert_of_isNumberChar {c : Char} (inside : Literal.isNumberChar c = true) :
    isInert c = true :=
  isInert_of_holds inside (by decide) (by decide)

end Token

namespace Cursor

variable {cursor : Cursor}

theorem comments_of_quote {quote : Char} {cs : List Char} (isQuote : quote = '"' ∨ quote = '\'')
    (rest : cursor.rest = quote :: cs) :
    (cursor.pass (quote :: (Token.splitString quote cs).1) (Token.splitString quote cs).2).comments
      = cursor.comments := by
  rw [comments, comments, rest, Token.lexemes, Token.firstLexeme_of_quote isQuote, Token.commentsAmong,
    if_neg (by rintro ⟨⟩)]
  rfl

/-- No comment starts in a literal. -/
theorem comments_pass_literal {literal : Literal} {passed rest : List Char}
    (found : Literal.scan cursor.rest = .found literal passed rest) :
    (cursor.pass passed rest).comments = cursor.comments := by
  have whole : cursor.rest = passed ++ rest := by
    have same := Literal.whole_scan cursor.rest
    rw [found] at same
    exact same.symm
  rcases Literal.scan_cases found with
    ⟨quote, others, contents, inside, isQuote, start, rfl, scanned⟩ | number | ⟨word, member, rfl⟩
  · have quoted := comments_of_quote isQuote start
    rwa [Token.splitString_of_scanContents isQuote scanned] at quoted
  · exact comments_pass whole fun c member => Token.isInert_of_isNumberChar (number c member)
  · refine comments_pass whole fun c inside => Token.isInert_of_isIdentifierChar ?_
    have words : ∀ word ∈ ["true", "false", "null"], word.toList.all isIdentifierChar = true := by
      decide
    exact List.all_eq_true.mp (words word member) c inside

end Cursor

end ApiDef
