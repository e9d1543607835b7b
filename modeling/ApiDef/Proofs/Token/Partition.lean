import ApiDef.Proofs.Token.Comments
import Mathlib.Data.List.Chain
import Mathlib.Data.List.TakeWhile
set_option autoImplicit false

/-!
# Tokens as the indivisible pieces of a text

Every lexeme ends where the scanner that read it stops on its own, and not because of what the text
has behind it. So the text of a lexeme, read alone, is that lexeme again.
-/

namespace ApiDef.Token

open Text

section

/-!
## What one lexeme is
-/

/-- The class of characters that lexemes of a shape are the longest runs of. -/
def Shape.run? : Shape → Option (Char → Bool)
  | blank => some isBlank
  | word => some isIdentifierChar
  | comment | tag | string | mark => none

/-- How the first lexeme is cut off a text that starts with `c`. -/
inductive CutsOff (c : Char) (cs : List Char) : Lexeme → List Char → Prop where
  | blank : isBlank c = true →
      CutsOff c cs ⟨.blank, c :: cs.takeWhile isBlank⟩ (cs.dropWhile isBlank)
  | comment : startsComment (c :: cs) = true →
      CutsOff c cs ⟨.comment, c :: cs.takeWhile (· ≠ '\n')⟩ (cs.dropWhile (· ≠ '\n'))
  | tag : c = '@' →
      CutsOff c cs ⟨.tag, c :: cs.takeWhile isIdentifierChar⟩ (cs.dropWhile isIdentifierChar)
  | string : c = '"' ∨ c = '\'' →
      CutsOff c cs ⟨.string, c :: (splitString c cs).1⟩ (splitString c cs).2
  | word : isIdentifierChar c = true →
      CutsOff c cs ⟨.word, c :: cs.takeWhile isIdentifierChar⟩ (cs.dropWhile isIdentifierChar)
  | mark : isBlank c = false → startsComment (c :: cs) = false → c ≠ '@' → ¬(c = '"' ∨ c = '\'') →
      isIdentifierChar c = false → CutsOff c cs ⟨.mark, [c]⟩ cs

variable {c : Char} {cs rest : List Char} {lexeme : Lexeme}

theorem cutsOff_firstLexeme (c : Char) (cs : List Char) :
    CutsOff c cs (firstLexeme c cs).1 (firstLexeme c cs).2 := by
  unfold firstLexeme
  split
  next blank => exact .blank blank
  next notBlank =>
    split
    next starts => exact .comment starts
    next notComment =>
      split
      next isTag => exact .tag isTag
      next notTag =>
        split
        next isQuote => exact .string isQuote
        next notQuote =>
          split
          next inside => exact .word inside
          next outside =>
            exact .mark (Bool.eq_false_iff.mpr notBlank) (Bool.eq_false_iff.mpr notComment) notTag
              notQuote (Bool.eq_false_iff.mpr outside)

theorem CutsOff.firstLexeme_eq (cut : CutsOff c cs lexeme rest) :
    firstLexeme c cs = (lexeme, rest) := by
  cases cut with
  | blank blank => exact firstLexeme_of_isBlank c cs blank
  | comment starts => rw [firstLexeme, if_neg (not_isBlank_of_startsComment starts), if_pos starts]
  | tag isTag =>
    subst isTag
    rfl
  | string isQuote => exact firstLexeme_of_quote isQuote cs
  | word inside => exact firstLexeme_of_isIdentifierChar c cs inside
  | mark notBlank notComment notTag notQuote outside =>
    rw [firstLexeme, notBlank, notComment, outside, if_neg Bool.false_ne_true,
      if_neg Bool.false_ne_true, if_neg notTag, if_neg notQuote, if_neg Bool.false_ne_true]

/-- The part of a string up to its end is cut off whole. -/
theorem splitString_fst (quote : Char) (cs : List Char) :
    splitString quote (splitString quote cs).1 = ((splitString quote cs).1, []) := by
  fun_induction splitString quote cs with
  | case1 | case2 | case3 | case4 => rfl
  | case5 c others notLineFeed inside after same _ ih =>
    rw [same] at ih
    rw [splitString_escaped _ notLineFeed, ih]
  | case6 others notLineFeed notEscape =>
    rw [splitString, if_neg notLineFeed, if_neg notEscape, if_pos rfl]
  | case7 c others notLineFeed notEscape notQuote inside after same ih =>
    rw [same] at ih
    rw [splitString_char _ notLineFeed notEscape notQuote, ih]

theorem lineFeed_not_mem_splitString (quote : Char) (cs : List Char) :
    '\n' ∉ (splitString quote cs).1 := by
  fun_induction splitString quote cs with
  | case1 | case2 => exact List.not_mem_nil
  | case3 | case4 => exact List.not_mem_cons_of_ne_of_not_mem (by decide) List.not_mem_nil
  | case5 c others notLineFeed inside after same _ ih =>
    rw [same] at ih
    simp [Ne.symm notLineFeed, ih]
  | case6 others notLineFeed => simp [Ne.symm notLineFeed]
  | case7 c others notLineFeed notEscape notQuote inside after same ih =>
    rw [same] at ih
    simp [Ne.symm notLineFeed, ih]

theorem startsComment_line (starts : startsComment (c :: cs) = true) :
    startsComment (c :: cs.takeWhile (· ≠ '\n')) = true := by
  unfold startsComment at starts
  split at starts
  next same =>
    rw [(List.cons.inj same).1]
    rfl
  next same =>
    obtain ⟨rfl, rfl⟩ := List.cons.inj same
    rfl
  next => cases starts

theorem not_startsComment_alone (notComment : startsComment (c :: cs) = false) :
    startsComment [c] = false := by
  unfold startsComment
  split
  next same =>
    rw [(List.cons.inj same).1] at notComment
    exact notComment
  next same => cases (List.cons.inj same).2
  next => rfl

namespace CutsOff

theorem text_eq_cons (cut : CutsOff c cs lexeme rest) :
    ∃ inside, lexeme.text = c :: inside := by
  cases cut <;> exact ⟨_, rfl⟩

/-- The text of a lexeme is cut off as that lexeme, and nothing is left. -/
theorem again {inside : List Char} (cut : CutsOff c cs lexeme rest)
    (text : lexeme.text = c :: inside) : CutsOff c inside lexeme [] := by
  -- what a scanner takes up to the end of a class, it takes whole when nothing else follows
  have run {p : Char → Bool} {shape : Shape}
      (whole : CutsOff c (cs.takeWhile p) ⟨shape, c :: (cs.takeWhile p).takeWhile p⟩
        ((cs.takeWhile p).dropWhile p)) :
      CutsOff c (cs.takeWhile p) ⟨shape, c :: cs.takeWhile p⟩ [] := by
    have nothing : (cs.takeWhile p).dropWhile p = [] :=
      List.dropWhile_eq_nil_iff.mpr fun _ member => List.mem_takeWhile_imp member
    rwa [List.takeWhile_idem, nothing] at whole
  cases cut with
  | blank blank =>
    obtain ⟨-, rfl⟩ := List.cons.inj text
    exact run (.blank blank)
  | comment starts =>
    obtain ⟨-, rfl⟩ := List.cons.inj text
    exact run (.comment (startsComment_line starts))
  | tag isTag =>
    obtain ⟨-, rfl⟩ := List.cons.inj text
    exact run (.tag isTag)
  | string isQuote =>
    obtain ⟨-, rfl⟩ := List.cons.inj text
    have whole : CutsOff c (splitString c cs).1 _ _ := .string isQuote
    rwa [splitString_fst] at whole
  | word within =>
    obtain ⟨-, rfl⟩ := List.cons.inj text
    exact run (.word within)
  | mark notBlank notComment notTag notQuote outside =>
    obtain ⟨-, rfl⟩ := List.cons.inj text
    exact .mark notBlank (not_startsComment_alone notComment) notTag notQuote outside

/-- Only a word is made of identifier characters alone. -/
theorem all_isIdentifierChar_iff (cut : CutsOff c cs lexeme rest) :
    lexeme.text.all isIdentifierChar = true ↔ lexeme.shape = .word := by
  have outside {shape : Shape} {tail : List Char} (notWord : shape ≠ .word)
      (first : isIdentifierChar c = false) :
      (c :: tail).all isIdentifierChar = true ↔ shape = .word := by
    rw [List.all_cons, first, Bool.false_and]
    exact iff_of_false Bool.false_ne_true notWord
  cases cut with
  | blank blank =>
    refine outside (by rintro ⟨⟩) (Bool.eq_false_iff.mpr fun inside => ?_)
    rw [Reader.not_isBlank_of_isIdentifierChar inside] at blank
    cases blank
  | comment starts =>
    refine outside (by rintro ⟨⟩) (Bool.eq_false_iff.mpr fun inside => ?_)
    rw [not_startsComment_of_isInert (isInert_of_isIdentifierChar inside)] at starts
    cases starts
  | tag isTag =>
    subst isTag
    exact outside (by rintro ⟨⟩) (by decide)
  | string isQuote =>
    rcases isQuote with rfl | rfl
    · exact outside (by rintro ⟨⟩) (by decide)
    · exact outside (by rintro ⟨⟩) (by decide)
  | word inside =>
    refine iff_of_true (List.all_eq_true.mpr (List.forall_mem_cons.mpr ⟨inside, ?_⟩)) rfl
    exact fun _ member => List.mem_takeWhile_imp member
  | mark notBlank notComment notTag notQuote notInside => exact outside (by rintro ⟨⟩) notInside

theorem lineFeed_not_mem (cut : CutsOff c cs lexeme rest)
    (shape : lexeme.shape = .comment ∨ lexeme.shape = .string) : '\n' ∉ lexeme.text := by
  cases cut with
  | comment starts =>
    obtain ⟨first, others, same, notLineFeed⟩ := Reader.exists_of_startsComment starts
    rw [(List.cons.inj same).1]
    exact List.not_mem_cons_of_ne_of_not_mem notLineFeed.symm (Reader.not_lineFeed_mem_takeWhile cs)
  | string isQuote =>
    refine List.not_mem_cons_of_ne_of_not_mem ?_ (lineFeed_not_mem_splitString c cs)
    rcases isQuote with rfl | rfl <;> decide
  | blank | tag | word | mark => rcases shape with same | same <;> cases same

/-- A run starts inside its class and ends before something else. -/
theorem run {p : Char → Bool} (cut : CutsOff c cs lexeme rest)
    (isRun : lexeme.shape.run? = some p) : p c = true ∧ Stops p rest := by
  cases cut with
  | blank blank =>
    cases isRun
    exact ⟨blank, stops_dropWhile isBlank cs⟩
  | word inside =>
    cases isRun
    exact ⟨inside, stops_dropWhile isIdentifierChar cs⟩
  | comment | tag | string | mark => cases isRun

end CutsOff

/-!
## The lexemes of a text
-/

theorem exists_cutsOff_of_mem {cs : List Char} (member : lexeme ∈ lexemes cs) :
    ∃ c others rest, CutsOff c others lexeme rest := by
  fun_induction lexemes cs with
  | case1 => exact absurd member List.not_mem_nil
  | case2 c cs ih =>
    rcases List.mem_cons.mp member with rfl | later
    · exact ⟨c, cs, _, cutsOff_firstLexeme c cs⟩
    · exact ih later

theorem flatMap_text_lexemes (cs : List Char) : (lexemes cs).flatMap Lexeme.text = cs := by
  fun_induction lexemes cs with
  | case1 => rfl
  | case2 c cs ih => rw [List.flatMap_cons, ih, firstLexeme_append]

/-- A lexeme is the only one of its text. -/
theorem lexemes_text (member : lexeme ∈ lexemes cs) : lexemes lexeme.text = [lexeme] := by
  obtain ⟨c, others, rest, cut⟩ := exists_cutsOff_of_mem member
  obtain ⟨inside, text⟩ := cut.text_eq_cons
  rw [text, lexemes, (cut.again text).firstLexeme_eq, lexemes]

/-- Two runs of the same class are never next to each other. -/
theorem isChain_lexemes (cs : List Char) :
    (lexemes cs).IsChain fun first second =>
      first.shape = second.shape → first.shape.run? = none := by
  fun_induction lexemes cs with
  | case1 => exact .nil
  | case2 c cs ih =>
    have cut := cutsOff_firstLexeme c cs
    cases left : (firstLexeme c cs).2 with
    | nil =>
      rw [lexemes]
      exact .singleton _
    | cons d others =>
      rw [left, lexemes] at ih
      rw [left] at cut
      rw [lexemes]
      refine List.isChain_cons_cons.mpr ⟨fun same => ?_, ih⟩
      cases isRun : (firstLexeme c cs).1.shape.run? with
      | none => rfl
      | some p =>
        -- the run stopped outside its class, where no other run of that class can start
        have stops := (cut.run isRun).2 d others rfl
        rw [same] at isRun
        rw [((cutsOff_firstLexeme d others).run isRun).1] at stops
        cases stops

end

/-!
## The tokens of a text
-/

/-- The lexeme that a token was before it got its kind. -/
def lexeme (token : Token) : Lexeme :=
  ⟨token.kind.shape, token.value.toList⟩

/-- A token made of letters, digits and underscores only. -/
def isWord (token : Token) : Bool :=
  token.value.toList.all isIdentifierChar

/-- The token without its neighbours: only the reserved word is more than a word on its own. -/
def alone (token : Token) : Token :=
  if token.isWord ∧ token.value ≠ reservedWord then { token with kind := .word } else token

theorem map_lexeme_classify (previous : Option Kind) (lexemes : List Lexeme) :
    (classify previous lexemes).map Token.lexeme = lexemes := by
  induction lexemes generalizing previous with
  | nil => rfl
  | cons lexeme others ih =>
    rw [classify, List.map_cons, ih, Token.lexeme, shape_kind, String.toList_ofList]

theorem map_lexeme_tokenize (text : String) :
    (tokenize text).map Token.lexeme = lexemes text.toList :=
  map_lexeme_classify none _

/-- A token has the kind of its lexeme between some neighbours. -/
theorem exists_kind_of_mem_classify {token : Token} {previous : Option Kind}
    {lexemes : List Lexeme} (member : token ∈ classify previous lexemes) :
    ∃ before after, token.kind = token.lexeme.kind before after := by
  induction lexemes generalizing previous with
  | nil => exact absurd member List.not_mem_nil
  | cons lexeme others ih =>
    rcases List.mem_cons.mp member with rfl | later
    · refine ⟨previous, nextChar others, ?_⟩
      rw [Token.lexeme, shape_kind, String.toList_ofList]
    · exact ih later

theorem kind_of_ne_word {lexeme : Lexeme} (notWord : lexeme.shape ≠ .word) (before : Option Kind)
    (after : Option Char) : lexeme.kind before after = lexeme.kind none none := by
  unfold Lexeme.kind
  cases shape : lexeme.shape with
  | word => exact absurd shape notWord
  | blank | comment | tag | string | mark => rfl

/-- Without neighbours, only a word changes its kind. -/
theorem alone_eq {token : Token} {before : Option Kind} {after : Option Char}
    (kind : token.kind = token.lexeme.kind before after)
    (isWord : token.isWord = true ↔ token.lexeme.shape = .word) :
    token.alone = ⟨token.lexeme.kind none none, token.value⟩ := by
  by_cases shape : token.lexeme.shape = .word
  · have ofNeighbours (before : Option Kind) (after : Option Char) :
        token.lexeme.kind before after = wordKind token.value before after := by
      rw [Lexeme.kind, shape, Token.lexeme, String.ofList_toList]
    by_cases reserved : token.value = reservedWord
    · have notAlone : ¬(token.isWord = true ∧ token.value ≠ reservedWord) :=
        fun both => both.2 reserved
      have same : token.kind = token.lexeme.kind none none := by
        rw [kind, ofNeighbours, ofNeighbours, wordKind, wordKind, if_pos reserved, if_pos reserved]
      rw [alone, if_neg notAlone, ← same]
    · have plain : token.lexeme.kind none none = .word := by
        rw [ofNeighbours, wordKind, if_neg reserved]
        rfl
      rw [alone, if_pos ⟨isWord.mpr shape, reserved⟩, plain]
  · have notAlone : ¬(token.isWord = true ∧ token.value ≠ reservedWord) :=
      fun both => shape (isWord.mp both.1)
    rw [alone, if_neg notAlone, ← kind_of_ne_word shape before after, ← kind]

variable {text : String} {token : Token}

theorem lexeme_mem_of_mem_tokenize (member : token ∈ tokenize text) :
    token.lexeme ∈ lexemes text.toList := by
  rw [← map_lexeme_tokenize]
  exact List.mem_map_of_mem member

theorem isWord_iff_of_mem_tokenize (member : token ∈ tokenize text) :
    token.isWord = true ↔ token.lexeme.shape = .word := by
  obtain ⟨c, others, rest, cut⟩ := exists_cutsOff_of_mem (lexeme_mem_of_mem_tokenize member)
  exact cut.all_isIdentifierChar_iff

theorem value_ne_empty_of_mem_tokenize (member : token ∈ tokenize text) : token.value ≠ "" := by
  obtain ⟨c, others, rest, cut⟩ := exists_cutsOff_of_mem (lexeme_mem_of_mem_tokenize member)
  obtain ⟨inside, value⟩ := cut.text_eq_cons
  intro empty
  rw [Token.lexeme, empty] at value
  cases value

theorem tokenize_value_of_mem_tokenize (member : token ∈ tokenize text) :
    tokenize token.value = [token.alone] := by
  obtain ⟨before, after, kind⟩ := exists_kind_of_mem_classify member
  have whole : lexemes token.value.toList = [token.lexeme] :=
    lexemes_text (lexeme_mem_of_mem_tokenize member)
  rw [tokenize, whole, alone_eq kind (isWord_iff_of_mem_tokenize member), classify, nextChar, classify,
    Token.lexeme, String.ofList_toList]

theorem join_values_tokenize (text : String) :
    String.join ((tokenize text).map Token.value) = text := by
  have pieces : ((tokenize text).map Token.lexeme).flatMap Lexeme.text = text.toList := by
    rw [map_lexeme_tokenize, flatMap_text_lexemes]
  rw [List.flatMap_map] at pieces
  apply String.toList_injective
  rw [String.toList_join, List.flatMap_map]
  exact pieces

theorem isChain_tokenize (text : String) :
    (tokenize text).IsChain fun first second =>
      ¬(first.kind = .blank ∧ second.kind = .blank) ∧ ¬(first.isWord ∧ second.isWord) := by
  have shapes := isChain_lexemes text.toList
  rw [← map_lexeme_tokenize, List.isChain_map] at shapes
  refine shapes.imp_of_mem_imp fun first second member member' runs => ⟨?_, ?_⟩
  · rintro ⟨blank, blank'⟩
    have shape : first.lexeme.shape = .blank := by rw [Token.lexeme, blank, Kind.shape]
    have shape' : second.lexeme.shape = .blank := by rw [Token.lexeme, blank', Kind.shape]
    have isRun := runs (shape.trans shape'.symm)
    rw [shape] at isRun
    cases isRun
  · rintro ⟨isWord, isWord'⟩
    have shape := (isWord_iff_of_mem_tokenize member).mp isWord
    have shape' := (isWord_iff_of_mem_tokenize member').mp isWord'
    have isRun := runs (shape.trans shape'.symm)
    rw [shape] at isRun
    cases isRun

theorem lineFeed_not_mem_value (member : token ∈ tokenize text)
    (kind : token.kind = .comment ∨ token.kind = .string) : '\n' ∉ token.value.toList := by
  obtain ⟨c, others, rest, cut⟩ := exists_cutsOff_of_mem (lexeme_mem_of_mem_tokenize member)
  refine cut.lineFeed_not_mem ?_
  rcases kind with comment | string
  · exact .inl (by rw [Token.lexeme, comment, Kind.shape])
  · exact .inr (by rw [Token.lexeme, string, Kind.shape])

/-- The tokens of any text are its pieces, each of which is one token on its own; blanks and words are
as long as they can be, and comments and strings end with their line. -/
theorem tokenize_partitions (text : String) :
    String.join ((tokenize text).map Token.value) = text
      ∧ (∀ token ∈ tokenize text,
        token.value ≠ "" ∧ tokenize token.value = [token.alone]
          ∧ (token.kind = .comment ∨ token.kind = .string → '\n' ∉ token.value.toList))
      ∧ (tokenize text).IsChain fun first second =>
        ¬(first.kind = .blank ∧ second.kind = .blank) ∧ ¬(first.isWord ∧ second.isWord) := by
  refine ⟨join_values_tokenize text, fun token member => ⟨?_, ?_, ?_⟩, isChain_tokenize text⟩
  · exact value_ne_empty_of_mem_tokenize member
  · exact tokenize_value_of_mem_tokenize member
  · exact lineFeed_not_mem_value member

example : tokenize "\"a\\\n'b' /@ enum" =
    [⟨.string, "\"a\\"⟩, ⟨.blank, "\n"⟩, ⟨.string, "'b'"⟩, ⟨.blank, " "⟩, ⟨.other, "/"⟩,
      ⟨.tagName, "@"⟩, ⟨.blank, " "⟩, ⟨.keyword, "enum"⟩] := by
  cbv

end ApiDef.Token
