import ApiDef.Proofs.Token.Comments
set_option autoImplicit false

/-!
# The names that a text declares

What a token is depends on the ones before it only by whether the last of them is the reserved word,
and on what follows only by its first character behind blanks. So the declared names can be collected
piece by piece.
-/

namespace ApiDef.Token

open Text

def declaredName? (token : Token) : Option String :=
  if token.kind = .dataTypeName ∨ token.kind = .enumName then some token.value else none

/-- The names that lexemes declare behind a token of some kind. -/
def namesAmong (previous : Option Kind) (lexemes : List Lexeme) : List String :=
  (classify previous lexemes).filterMap declaredName?

/-- The names that are declared from a place on, unless the reserved word stands before it. -/
def namesIn (cs : List Char) : List String :=
  namesAmong none (lexemes cs)

/-!
## What stands before a token
-/

/-- A word of a kind that declares nothing and that nothing depends on. -/
def Kind.isPlain : Kind → Bool
  | typeName | word => true
  | _ => false

theorem wordKind_congr {first second : Option Kind} (notFirst : first ≠ some .keyword)
    (notSecond : second ≠ some .keyword) (word : String) (next : Option Char) :
    wordKind word first next = wordKind word second next
      ∨ (wordKind word first next).isPlain = true ∧ (wordKind word second next).isPlain = true := by
  unfold wordKind
  rw [if_neg notFirst, if_neg notSecond]
  by_cases reserved : word = reservedWord
  · simp [reserved]
  by_cases opened : next = some '(' ∨ next = some '{'
  · rcases opened with rfl | rfl <;> simp
  · rw [not_or] at opened
    refine .inr ⟨?_, ?_⟩
    · rw [if_neg reserved, if_neg opened.1, if_neg opened.2]
      split <;> rfl
    · rw [if_neg reserved, if_neg opened.1, if_neg opened.2]
      split <;> rfl

theorem kind_congr {first second : Option Kind} (notFirst : first ≠ some .keyword)
    (notSecond : second ≠ some .keyword) (lexeme : Lexeme) (next : Option Char) :
    lexeme.kind first next = lexeme.kind second next
      ∨ (lexeme.kind first next).isPlain = true ∧ (lexeme.kind second next).isPlain = true := by
  unfold Lexeme.kind
  cases lexeme.shape with
  | word => exact wordKind_congr notFirst notSecond _ next
  | blank | comment | tag | string | mark => exact .inl rfl

theorem namesAmong_cons (previous : Option Kind) (lexeme : Lexeme) (others : List Lexeme) :
    namesAmong previous (lexeme :: others)
      = (declaredName? ⟨lexeme.kind previous (nextChar others), String.ofList lexeme.text⟩).toList
        ++ namesAmong (if (lexeme.kind previous (nextChar others)).isTrivia then previous
          else some (lexeme.kind previous (nextChar others))) others := by
  rw [namesAmong, classify, List.filterMap_cons]
  cases declaredName? ⟨lexeme.kind previous (nextChar others), String.ofList lexeme.text⟩ <;> rfl

theorem namesAmong_congr {first second : Option Kind} (notFirst : first ≠ some .keyword)
    (notSecond : second ≠ some .keyword) (lexemes : List Lexeme) :
    namesAmong first lexemes = namesAmong second lexemes := by
  have plainKind : ∀ kind : Kind, kind.isPlain = true →
      kind ≠ .dataTypeName ∧ kind ≠ .enumName ∧ kind.isTrivia = false ∧ kind ≠ .keyword := by
    intro kind plain
    cases kind <;> simp [Kind.isPlain, Kind.isTrivia] at plain ⊢
  induction lexemes generalizing first second with
  | nil => rfl
  | cons lexeme others ih =>
    rw [namesAmong_cons, namesAmong_cons]
    rcases kind_congr notFirst notSecond lexeme (nextChar others) with same | ⟨plain, plain'⟩
    · rw [same]
      split
      · rw [ih notFirst notSecond]
      · rfl
    · obtain ⟨notType, notEnum, solid, notKeyword⟩ := plainKind _ plain
      obtain ⟨notType', notEnum', solid', notKeyword'⟩ := plainKind _ plain'
      have later := ih (fun same => notKeyword (Option.some.inj same))
        fun same => notKeyword' (Option.some.inj same)
      simp [declaredName?, notType, notEnum, notType', notEnum', solid, solid', later]

/-- Behind anything but the reserved word, what was before does not matter. -/
theorem namesAmong_eq_namesIn {previous : Option Kind} (notKeyword : previous ≠ some .keyword)
    (cs : List Char) : namesAmong previous (lexemes cs) = namesIn cs :=
  namesAmong_congr notKeyword (by rintro ⟨⟩) _

/-!
## What follows a token
-/

theorem nextChar_lexemes_cons {c : Char} (solid : isBlank c = false) (cs : List Char) :
    nextChar (lexemes (c :: cs)) = some c := by
  have notBlank : ¬isBlank c = true := Bool.eq_false_iff.mp solid
  rw [lexemes, firstLexeme, if_neg notBlank]
  repeat' split
  all_goals rfl

theorem nextChar_lexemes (cs : List Char) : nextChar (lexemes cs) = (trimStart cs).head? := by
  have solidStart : ∀ tail, Stops isBlank tail → nextChar (lexemes tail) = tail.head? := by
    intro tail stops
    cases tail with
    | nil =>
      rw [lexemes]
      rfl
    | cons d others => exact nextChar_lexemes_cons (stops d others rfl) others
  cases cs with
  | nil => exact solidStart [] (stops_nil isBlank)
  | cons c cs =>
    cases blank : isBlank c with
    | false => rw [trimStart_of_stops (stops_cons blank cs), nextChar_lexemes_cons blank, List.head?_cons]
    | true =>
      rw [lexemes, firstLexeme_of_isBlank c cs blank, nextChar, solidStart _ (stops_dropWhile isBlank cs),
        trimStart, List.dropWhile_cons_of_pos blank]

/-!
## Gaps and marks
-/

theorem namesIn_nil : namesIn [] = [] := by
  rw [namesIn, lexemes]
  rfl

theorem namesAmong_trimStart (previous : Option Kind) (cs : List Char) :
    namesAmong previous (lexemes (trimStart cs)) = namesAmong previous (lexemes cs) := by
  cases cs with
  | nil => rfl
  | cons c cs =>
    cases blank : isBlank c with
    | false => rw [trimStart_of_stops (stops_cons blank cs)]
    | true =>
      rw [trimStart, List.dropWhile_cons_of_pos blank, lexemes.eq_def (c :: cs)]
      simp only [firstLexeme_of_isBlank c cs blank, namesAmong_cons]
      rfl

theorem namesIn_blanks {blanks : List Char} (allBlank : ∀ c ∈ blanks, isBlank c = true)
    (tail : List Char) : namesIn (blanks ++ tail) = namesIn tail := by
  rw [namesIn, ← namesAmong_trimStart, trimStart, List.dropWhile_append_of_pos allBlank,
    ← trimStart, namesAmong_trimStart, namesIn]

theorem namesIn_blank {c : Char} (blank : isBlank c = true) (cs : List Char) :
    namesIn (c :: cs) = namesIn cs :=
  namesIn_blanks (List.forall_mem_singleton.mpr blank) cs

theorem namesIn_comment {cs : List Char} (starts : startsComment cs = true) :
    namesIn cs = namesIn (cs.dropWhile (· ≠ '\n')) := by
  obtain ⟨c, others, rfl, notLineFeed⟩ := Reader.exists_of_startsComment starts
  have notBlank := not_isBlank_of_startsComment starts
  have left : (c :: others).dropWhile (· ≠ '\n') = others.dropWhile (· ≠ '\n') :=
    List.dropWhile_cons_of_pos (decide_eq_true notLineFeed)
  rw [left, namesIn, lexemes, firstLexeme, if_neg notBlank, if_pos starts, namesAmong_cons]
  rfl

theorem namesIn_commentLine {line tail : List Char} (starts : startsComment (line ++ tail) = true)
    (oneLine : '\n' ∉ line) (stops : Stops (· ≠ '\n') tail) :
    namesIn (line ++ tail) = namesIn tail := by
  have inside : ∀ c ∈ line, decide (c ≠ '\n') = true := by
    intro c member
    refine decide_eq_true ?_
    rintro rfl
    exact oneLine member
  rw [namesIn_comment starts, dropWhile_of_stops inside stops]

/-- A character that is a lexeme by itself, whatever follows. -/
def isMark (c : Char) : Bool :=
  isInert c && !isBlank c && c ≠ '@' && !isIdentifierChar c

theorem isMark_iff {c : Char} : isMark c = true
    ↔ isInert c = true ∧ isBlank c = false ∧ c ≠ '@' ∧ isIdentifierChar c = false := by
  simp [isMark, and_assoc]

theorem namesAmong_mark {c : Char} (mark : isMark c = true) (previous : Option Kind) (cs : List Char) :
    namesAmong previous (lexemes (c :: cs)) = namesIn cs := by
  obtain ⟨inert, solid, notTag, notWord⟩ := isMark_iff.mp mark
  have notComment := not_startsComment_of_isInert inert cs
  simp only [isInert, Bool.and_eq_true, decide_eq_true_eq] at inert
  have first : firstLexeme c cs = (⟨.mark, [c]⟩, cs) := by
    simp [firstLexeme, solid, notComment, notTag, inert, notWord]
  have kinds : ∀ text, declaredName? ⟨markKind text, String.ofList [c]⟩ = none
      ∧ (markKind text).isTrivia = false ∧ markKind text ≠ .keyword := by
    intro text
    unfold markKind
    repeat' split
    all_goals simp [declaredName?, Kind.isTrivia]
  obtain ⟨noName, notTrivia, notKeyword⟩ := kinds [c]
  rw [lexemes, first, namesAmong_cons, Lexeme.kind]
  simp only [noName, notTrivia]
  exact namesAmong_eq_namesIn (fun same => notKeyword (Option.some.inj same)) cs

theorem namesIn_mark {c : Char} (mark : isMark c = true) (cs : List Char) :
    namesIn (c :: cs) = namesIn cs :=
  namesAmong_mark mark none cs

theorem namesIn_tag (cs : List Char) :
    namesIn ('@' :: cs) = namesIn (cs.dropWhile isIdentifierChar) := by
  have first : firstLexeme '@' cs
      = (⟨.tag, '@' :: cs.takeWhile isIdentifierChar⟩, cs.dropWhile isIdentifierChar) := by
    simp [firstLexeme, isBlank, blankRanges, startsComment]
  rw [namesIn, lexemes, first, namesAmong_cons]
  exact namesAmong_eq_namesIn (by rintro ⟨⟩) _

theorem namesIn_quote {quote : Char} (isQuote : quote = '"' ∨ quote = '\'') (cs : List Char) :
    namesIn (quote :: cs) = namesIn (splitString quote cs).2 := by
  rw [namesIn, lexemes, firstLexeme_of_quote isQuote, namesAmong_cons]
  exact namesAmong_eq_namesIn (by rintro ⟨⟩) _

/-!
## Words
-/

/-- What cannot make a name of a data type from the word before it. -/
structure EndsName (tail : List Char) : Prop where
  stops : Stops isIdentifierChar tail
  noBody : (trimStart tail).head? ≠ some '{'

theorem endsName_nil : EndsName [] :=
  ⟨stops_nil isIdentifierChar, by decide⟩

theorem trimStart_gap {gap : List Char} (gapBlank : ∀ c ∈ gap, isBlank c = true) {c : Char}
    (mark : isMark c = true) (rest : List Char) : trimStart (gap ++ c :: rest) = c :: rest :=
  dropWhile_of_stops gapBlank (stops_cons (isMark_iff.mp mark).2.1 rest)

/-- A mark other than an opening brace stands behind blanks. -/
def EndsMark (tail : List Char) : Prop :=
  ∃ gap c rest, tail = gap ++ c :: rest ∧ (∀ c ∈ gap, isBlank c = true) ∧ isMark c = true ∧ c ≠ '{'

theorem endsMark_cons {c : Char} (mark : isMark c = true ∧ c ≠ '{') (rest : List Char) :
    EndsMark (c :: rest) :=
  ⟨[], c, rest, rfl, blank_nil, mark⟩

theorem EndsMark.endsName {tail : List Char} (ends : EndsMark tail) : EndsName tail := by
  obtain ⟨gap, c, rest, rfl, gapBlank, mark, noBody⟩ := ends
  refine ⟨?_, ?_⟩
  · cases gap with
    | nil => exact stops_cons (isMark_iff.mp mark).2.2.2 rest
    | cons first others => exact Reader.stops_blanks (List.cons_ne_nil _ _) gapBlank _
  · rw [trimStart_gap gapBlank mark]
    exact Reader.head?_cons_ne noBody rest

theorem namesAmong_word {word : String} {tail : List Char} (nonempty : word.toList ≠ [])
    (inside : ∀ c ∈ word.toList, isIdentifierChar c = true) (stops : Stops isIdentifierChar tail)
    (previous : Option Kind) :
    namesAmong previous (lexemes (word.toList ++ tail))
      = (declaredName? ⟨wordKind word previous (trimStart tail).head?, word⟩).toList
        ++ namesAmong (some (wordKind word previous (trimStart tail).head?)) (lexemes tail) := by
  obtain ⟨c, others, same⟩ := List.exists_cons_of_ne_nil nonempty
  obtain ⟨first, behind⟩ := List.forall_mem_cons.mp (same ▸ inside)
  have notTrivia : ∀ word next, (wordKind word previous next).isTrivia = false := by
    intro word next
    unfold wordKind
    repeat' split
    all_goals rfl
  rw [same, List.cons_append, lexemes, firstLexeme_of_isIdentifierChar c _ first,
    takeWhile_of_stops behind stops, dropWhile_of_stops behind stops, ← same, namesAmong_cons,
    nextChar_lexemes]
  simp only [Lexeme.kind, String.ofList_toList, notTrivia]
  rfl

theorem declaredName?_wordKind {next : Option Char} (noBody : next ≠ some '{') (word : String) :
    declaredName? ⟨wordKind word none next, word⟩ = none := by
  unfold wordKind
  rw [if_neg noBody]
  repeat' split
  all_goals simp_all [declaredName?]

theorem wordKind_ne_keyword {word : String} (unreserved : word ≠ reservedWord) (previous : Option Kind)
    (next : Option Char) : some (wordKind word previous next) ≠ some .keyword := by
  unfold wordKind
  rw [if_neg unreserved]
  repeat' split
  all_goals simp

theorem namesIn_word {word : String} {tail : List Char} (nonempty : word.toList ≠ [])
    (inside : ∀ c ∈ word.toList, isIdentifierChar c = true) (unreserved : word ≠ reservedWord)
    (ends : EndsName tail) : namesIn (word.toList ++ tail) = namesIn tail := by
  rw [namesIn, namesAmong_word nonempty inside ends.stops none, declaredName?_wordKind ends.noBody]
  exact namesAmong_eq_namesIn (wordKind_ne_keyword unreserved _ _) tail

section

variable {name : String} (valid : isIdentifier name = true)

include valid

theorem namesAmong_identifier {tail : List Char} (stops : Stops isIdentifierChar tail)
    (previous : Option Kind) :
    namesAmong previous (lexemes (name.toList ++ tail))
      = (declaredName? ⟨wordKind name previous (trimStart tail).head?, name⟩).toList
        ++ namesAmong (some (wordKind name previous (trimStart tail).head?)) (lexemes tail) := by
  obtain ⟨first, others, same, -, inside⟩ := exists_of_isIdentifier valid
  exact namesAmong_word (by rw [same]; exact List.cons_ne_nil _ _) inside stops previous

theorem namesIn_identifier {tail : List Char} (unreserved : name ≠ reservedWord)
    (ends : EndsName tail) : namesIn (name.toList ++ tail) = namesIn tail := by
  obtain ⟨first, others, same, -, inside⟩ := exists_of_isIdentifier valid
  exact namesIn_word (by rw [same]; exact List.cons_ne_nil _ _) inside unreserved ends

/-- In front of a mark even the reserved word is a name like any other. -/
theorem namesIn_markedIdentifier {tail : List Char} (ends : EndsMark tail) :
    namesIn (name.toList ++ tail) = namesIn tail := by
  have endsName := ends.endsName
  obtain ⟨gap, c, rest, rfl, gapBlank, mark, -⟩ := ends
  rw [namesIn, namesAmong_identifier valid endsName.stops, declaredName?_wordKind endsName.noBody,
    Option.toList_none, List.nil_append, namesIn, ← namesAmong_trimStart, ← namesAmong_trimStart none,
    trimStart_gap gapBlank mark, namesAmong_mark mark, namesAmong_mark mark]

theorem namesAmong_declared {previous : Option Kind} (unreserved : name ≠ reservedWord)
    (rest : List Char) :
    namesAmong previous (lexemes (name.toList ++ ' ' :: '{' :: rest)) = name :: namesIn rest := by
  have stops : Stops isIdentifierChar (' ' :: '{' :: rest) := stops_cons (by decide) _
  have nextBrace : (trimStart (' ' :: '{' :: rest)).head? = some '{' := rfl
  have declares : declaredName? ⟨wordKind name previous (some '{'), name⟩ = some name := by
    unfold wordKind
    rw [if_neg unreserved]
    by_cases behind : previous = some .keyword
    · simp [behind, declaredName?]
    · simp [behind, declaredName?]
  have behind : namesAmong (some (wordKind name previous (some '{'))) (lexemes (' ' :: '{' :: rest))
      = namesIn rest := by
    rw [← namesAmong_trimStart]
    exact namesAmong_mark (by decide) _ rest
  rw [namesAmong_identifier valid stops, nextBrace, declares, behind]
  rfl

theorem namesIn_dataType (unreserved : name ≠ reservedWord) (rest : List Char) :
    namesIn (name.toList ++ ' ' :: '{' :: rest) = name :: namesIn rest :=
  namesAmong_declared valid unreserved rest

theorem namesIn_enumeration (unreserved : name ≠ reservedWord) (rest : List Char) :
    namesIn (reservedWord.toList ++ ' ' :: (name.toList ++ ' ' :: '{' :: rest))
      = name :: namesIn rest := by
  have keyword : isIdentifier reservedWord = true := by decide
  have stops : Stops isIdentifierChar (' ' :: (name.toList ++ ' ' :: '{' :: rest)) :=
    stops_cons (by decide) _
  have kind : ∀ next, wordKind reservedWord none next = .keyword := fun _ => rfl
  have behind : namesAmong (some .keyword) (lexemes (' ' :: (name.toList ++ ' ' :: '{' :: rest)))
      = name :: namesIn rest := by
    have trimmed : trimStart (' ' :: (name.toList ++ ' ' :: '{' :: rest))
        = trimStart (name.toList ++ ' ' :: '{' :: rest) := rfl
    rw [← namesAmong_trimStart, trimmed, namesAmong_trimStart, namesAmong_declared valid unreserved]
  rw [namesIn, namesAmong_identifier keyword stops, kind, behind]
  rfl

end

/-!
## Literals
-/

theorem isMark_of_isNumberChar {c : Char} (number : Literal.isNumberChar c = true)
    (notWord : isIdentifierChar c = false) : isMark c = true ∧ c ≠ '{' := by
  have marks : ['-', '+', '.', 'e', 'E'].all (fun mark =>
      isIdentifierChar mark || (isMark mark && mark ≠ '{')) = true := by
    decide
  rcases Bool.or_eq_true_iff.mp number with digit | mark
  · rw [isIdentifierChar_of_isDigit digit] at notWord
    cases notWord
  · have either := List.all_eq_true.mp marks c (List.contains_iff_mem.mp mark)
    rw [notWord, Bool.false_or, Bool.and_eq_true, decide_eq_true_eq] at either
    exact either

theorem namesIn_numberWord {word tail : List Char} (inside : ∀ c ∈ word, isIdentifierChar c = true)
    (number : ∀ c ∈ word, Literal.isNumberChar c = true) (ends : EndsName tail) :
    namesIn (word ++ tail) = namesIn tail := by
  cases word with
  | nil => rfl
  | cons c others =>
    have unreserved : String.ofList (c :: others) ≠ reservedWord := by
      intro same
      have letter : 'n' ∈ c :: others := by
        rw [← @String.toList_ofList (c :: others), same]
        decide
      exact absurd (number 'n' letter) (by decide)
    have nonempty : (String.ofList (c :: others)).toList ≠ [] := by
      rw [String.toList_ofList]
      exact List.cons_ne_nil _ _
    rw [← @String.toList_ofList (c :: others)] at inside ⊢
    exact namesIn_word nonempty inside unreserved ends

/-- The marks of a number cut it into words. -/
theorem namesIn_number {passed tail : List Char} (number : ∀ c ∈ passed, Literal.isNumberChar c = true)
    (ends : EndsName tail) : namesIn (passed ++ tail) = namesIn tail := by
  have behindWord : ∀ word : List Char, (∀ c ∈ word, isIdentifierChar c = true) →
      (∀ c ∈ word, Literal.isNumberChar c = true) →
      namesIn (word ++ (passed ++ tail)) = namesIn tail := by
    induction passed with
    | nil => exact fun word inside numberWord => namesIn_numberWord inside numberWord ends
    | cons c passed ih =>
      intro word inside numberWord
      obtain ⟨first, others⟩ := List.forall_mem_cons.mp number
      cases isWord : isIdentifierChar c with
      | true =>
        have longer := ih others (word ++ [c])
          (List.forall_mem_append.mpr ⟨inside, List.forall_mem_singleton.mpr isWord⟩)
          (List.forall_mem_append.mpr ⟨numberWord, List.forall_mem_singleton.mpr first⟩)
        rwa [List.append_assoc] at longer
      | false =>
        have mark := isMark_of_isNumberChar first isWord
        have ends : EndsName (c :: (passed ++ tail)) := (endsMark_cons mark _).endsName
        rw [List.cons_append, namesIn_numberWord inside numberWord ends,
          namesIn_mark mark.1]
        exact ih others [] (List.forall_mem_nil _) (List.forall_mem_nil _)
  exact behindWord [] (List.forall_mem_nil _) (List.forall_mem_nil _)

theorem namesIn_literal {literal : Literal} {cs passed rest : List Char}
    (found : Literal.scan cs = .found literal passed rest) (ends : EndsName rest) :
    namesIn cs = namesIn rest := by
  have whole := Literal.whole_scan cs
  rw [found, Literal.Scan.whole_found] at whole
  rcases Literal.scan_cases found with
    ⟨quote, others, contents, inside, isQuote, start, rfl, scanned⟩ | number | ⟨word, member, rfl⟩
  · rw [start, namesIn_quote isQuote, splitString_of_scanContents isQuote scanned]
  · rw [← whole, namesIn_number number ends]
  · have words : ["true", "false", "null"].all (fun word => isIdentifier word
        && word ≠ reservedWord) = true := by
      decide
    have fine := List.all_eq_true.mp words word member
    rw [Bool.and_eq_true, decide_eq_true_eq] at fine
    rw [← whole, namesIn_identifier fine.1 fine.2 ends]

/-!
## The list of names
-/

theorem foldl_names (tokens : List Token) (names : List String) :
    tokens.foldl (fun names token =>
        if (token.kind = .dataTypeName ∨ token.kind = .enumName) ∧ token.value ∉ names then
          names ++ [token.value]
        else names) names
      = names ++ ((tokens.filterMap declaredName?).filter (· ∉ names)).eraseDups := by
  induction tokens generalizing names with
  | nil => simp
  | cons token others ih =>
    rw [List.foldl_cons, ih, List.filterMap_cons, declaredName?]
    by_cases declares : token.kind = .dataTypeName ∨ token.kind = .enumName
    · by_cases known : token.value ∈ names
      · simp [declares, known]
      · have others : ∀ found : List String, found.filter (· ∉ names ++ [token.value])
            = (found.filter (· ∉ names)).filter fun name => !name == token.value := by
          intro found
          rw [List.filter_filter]
          apply List.filter_congr
          intro name _
          by_cases same : name = token.value <;> simp [same, known]
        simp only [declares, known, not_false_eq_true, and_self, if_true, others]
        rw [List.filter_cons_of_pos (by simpa using known), List.eraseDups_cons, List.append_assoc]
        rfl
    · simp [declares]

/-- The declared names, each at its first place. -/
theorem declaredNames_eq (text : String) : declaredNames text = (namesIn text.toList).eraseDups := by
  have all : ∀ found : List String, found.filter (· ∉ ([] : List String)) = found :=
    fun found => List.filter_eq_self.mpr (by simp)
  rw [declaredNames, foldl_names, all, List.nil_append]
  rfl

end ApiDef.Token
