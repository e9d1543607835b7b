import ApiDef.Proofs.Text.Literal
import ApiDef.Proofs.Text.Respelled
set_option autoImplicit false

/-!
# Literals in a respelled text

A literal ends on the line where it starts. So it is scanned from a respelled text as it is from the
text, and where no literal can be scanned from the text, none can be scanned from the respelled one.
-/

namespace ApiDef.Text

namespace Literal

namespace Scan

variable {α β : Type}

/-- The characters that a scan went over. -/
def passed : Scan α → List Char
  | found _ passed _ => passed
  | failed _ passed _ => passed

@[simp] theorem passed_after (before : List Char) (scan : Scan α) :
    (scan.after before).passed = before ++ scan.passed := by
  cases scan <;> rfl

@[simp] theorem passed_map (f : α → β) (scan : Scan α) : (scan.map f).passed = scan.passed := by
  cases scan <;> rfl

/-- A scan with another text behind it. -/
def mapRest (f : List Char → List Char) : Scan α → Scan α
  | found value passed rest => found value passed (f rest)
  | failed fault passed rest => failed fault passed (f rest)

theorem mapRest_after (f : List Char → List Char) (before : List Char) (scan : Scan α) :
    (scan.after before).mapRest f = (scan.mapRest f).after before := by
  cases scan <;> rfl

end Scan

/-!
## The parts of a number
-/

theorem splitFraction_none {cs : List Char} (noPoint : ∀ c ∈ cs.head?, c ≠ '.') :
    splitFraction cs = ([], cs) := by
  unfold splitFraction
  split
  next => exact absurd rfl (noPoint '.' rfl)
  next => rfl

theorem splitFraction_point {cs : List Char} (noDigit : ∀ c ∈ cs.head?, c.isDigit = false) :
    splitFraction ('.' :: cs) = ([], '.' :: cs) := by
  cases cs with
  | nil => rfl
  | cons c others => simp [splitFraction, noDigit c rfl]

theorem scanExponent_none {cs : List Char} (noMark : ∀ c ∈ cs.head?, ¬(c = 'e' ∨ c = 'E')) :
    scanExponent cs = .found () [] cs := by
  cases cs with
  | nil => rfl
  | cons c others => simp only [scanExponent, if_neg (noMark c rfl)]

theorem scanExponent_unsigned {mark : Char} (isMark : mark = 'e' ∨ mark = 'E') {cs : List Char}
    (noSign : ∀ c ∈ cs.head?, ¬(c = '+' ∨ c = '-')) :
    scanExponent (mark :: cs) = (scanDigits cs).after [mark] := by
  cases cs with
  | nil => simp only [scanExponent, if_pos isMark]
  | cons c others => simp only [scanExponent, if_pos isMark, if_neg (noSign c rfl)]

theorem scanNumber_unsigned {cs : List Char} (noMinus : ∀ c ∈ cs.head?, c ≠ '-') :
    scanNumber cs = scanUnsigned cs := by
  unfold scanNumber
  split
  next => exact absurd rfl (noMinus '-' rfl)
  next => rfl

/-!
## Strings
-/

theorem not_lineFeed_of_hexNumber? {digits : List Char} {code : Nat}
    (decoded : hexNumber? digits = some code) : '\n' ∉ digits :=
  fun member => absurd (isIdentifierChar_of_hexNumber? decoded '\n' member) (by decide)

theorem not_lineFeed_of_leadingHex (cs : List Char) : '\n' ∉ leadingHex cs :=
  fun member => absurd (isIdentifierChar_of_mem_leadingHex cs '\n' member) (by decide)

/-- A string never goes over the end of its line. -/
theorem not_lineFeed_of_scanContents (quote : Char) (cs : List Char) :
    '\n' ∉ (scanContents quote cs).passed := by
  fun_induction scanContents quote cs with
  | case5 a b d e others character decoded _ _ ih =>
    obtain ⟨code, digits, -⟩ := Option.bind_eq_some_iff.mp decoded
    have inLine := not_lineFeed_of_hexNumber? digits
    rw [Scan.passed_after, Scan.passed_map, List.mem_append, not_or]
    simp only [List.mem_cons, List.not_mem_nil, or_false, not_or] at inLine ⊢
    exact ⟨⟨by decide, by decide, inLine⟩, ih⟩
  | case6 a b d e others _ digits =>
    have inLine := not_lineFeed_of_leadingHex [a, b, d, e]
    simp only [Scan.passed, List.mem_cons, not_or]
    exact ⟨by decide, by decide, inLine⟩
  | case7 others _ digits =>
    have inLine := not_lineFeed_of_leadingHex others
    simp only [Scan.passed, List.mem_cons, not_or]
    exact ⟨by decide, by decide, inLine⟩
  | case8 escaped others _ _ character decoded _ _ ih =>
    have inLine : '\n' ≠ escaped := (ne_lineFeed_of_shortEscape? decoded).symm
    rw [Scan.passed_after, Scan.passed_map, List.mem_append, not_or]
    simp only [List.mem_cons, List.not_mem_nil, or_false, not_or]
    exact ⟨⟨by decide, inLine⟩, ih⟩
  | case10 c others notLineFeed _ _ ih =>
    rw [Scan.passed_after, Scan.passed_map, List.mem_append, not_or]
    exact ⟨by simpa using Ne.symm notLineFeed, ih⟩
  | case3 others notLineFeed => simpa [Scan.passed] using Ne.symm notLineFeed
  | _ => simp [Scan.passed]

theorem getLast?_of_scanContents {quote : Char} {cs contents passed rest : List Char}
    (found : scanContents quote cs = .found contents passed rest) : passed.getLast? = some quote := by
  fun_induction scanContents quote cs generalizing contents passed with
  | case3 =>
    obtain ⟨-, rfl, -⟩ := Scan.found.inj found
    rfl
  | case5 a b d e others character decoded _ notQuote ih =>
    obtain ⟨later, mapped, rfl⟩ := Scan.after_eq_found found
    obtain ⟨inner, scanned, rfl⟩ := Scan.map_eq_found mapped
    rw [List.getLast?_append, ih scanned, Option.some_or]
  | case8 escaped others _ _ character decoded _ notQuote ih =>
    obtain ⟨later, mapped, rfl⟩ := Scan.after_eq_found found
    obtain ⟨inner, scanned, rfl⟩ := Scan.map_eq_found mapped
    rw [List.getLast?_append, ih scanned, Option.some_or]
  | case10 c others notLineFeed notQuote notEscape ih =>
    obtain ⟨later, mapped, rfl⟩ := Scan.after_eq_found found
    obtain ⟨inner, scanned, rfl⟩ := Scan.map_eq_found mapped
    rw [List.getLast?_append, ih scanned, Option.some_or]
  | _ => cases found

end Literal

namespace Respelling

open Literal

variable (spelling : Respelling)

/-!
## Numbers and words
-/

theorem scanDigits_text (cs : List Char) :
    scanDigits (spelling.text cs) = (scanDigits cs).mapRest spelling.text := by
  obtain ⟨taken, dropped⟩ := spelling.takeWhile_text (p := Char.isDigit) (by decide) (by decide) cs
  simp only [scanDigits, taken, dropped]
  split <;> rfl

theorem splitFraction_text (cs : List Char) :
    splitFraction (spelling.text cs) = ((splitFraction cs).1, spelling.text (splitFraction cs).2) := by
  rcases spelling.text_cases cs with ⟨c, others, rfl, -, same⟩ | ⟨ended, endedAgain⟩
  · by_cases point : c = '.'
    · subst point
      obtain ⟨taken, dropped⟩ :=
        spelling.takeWhile_text (p := Char.isDigit) (by decide) (by decide) others
      rcases spelling.text_cases others with ⟨d, rest, rfl, -, sameRest⟩ | ⟨ended, endedAgain⟩
      · rw [sameRest] at taken dropped
        rw [same, sameRest]
        simp only [splitFraction, taken, dropped]
        split
        · rfl
        · rw [same, sameRest]
      · rw [same, splitFraction_point (ended.all _ (by decide) (by decide)),
          splitFraction_point (endedAgain.all _ (by decide) (by decide)), same]
    · have noPoint : ∀ d ∈ (c :: others).head?, d ≠ '.' := by simpa using point
      rw [splitFraction_none noPoint, same, splitFraction_none]
      exact noPoint
  · rw [splitFraction_none (ended.all _ (by decide) (by decide)),
      splitFraction_none (endedAgain.all _ (by decide) (by decide))]

theorem scanExponent_text (cs : List Char) :
    scanExponent (spelling.text cs) = (scanExponent cs).mapRest spelling.text := by
  rcases spelling.text_cases cs with ⟨mark, others, rfl, -, same⟩ | ⟨ended, endedAgain⟩
  · by_cases isMark : mark = 'e' ∨ mark = 'E'
    · rcases spelling.text_cases others with ⟨sign, digits, rfl, inLine, sameRest⟩ | ⟨ended, endedAgain⟩
      · by_cases signed : sign = '+' ∨ sign = '-'
        · rw [same, sameRest]
          simp only [scanExponent, if_pos isMark, if_pos signed]
          rw [scanDigits_text, Scan.mapRest_after]
        · have unsigned := scanDigits_text spelling (sign :: digits)
          rw [sameRest] at unsigned
          rw [same, sameRest]
          simp only [scanExponent, if_pos isMark, if_neg signed]
          rw [unsigned, Scan.mapRest_after]
      · rw [same, scanExponent_unsigned isMark (ended.all _ (by decide) (by decide)),
          scanExponent_unsigned isMark (endedAgain.all _ (by decide) (by decide)), scanDigits_text,
          Scan.mapRest_after]
    · rw [same]
      simp only [scanExponent, if_neg isMark, Scan.mapRest, same]
  · rw [scanExponent_none (ended.all _ (by decide) (by decide)),
      scanExponent_none (endedAgain.all _ (by decide) (by decide))]
    rfl

theorem scanUnsigned_text (cs : List Char) :
    scanUnsigned (spelling.text cs) = (scanUnsigned cs).mapRest spelling.text := by
  simp only [scanUnsigned, scanDigits_text]
  cases scanDigits cs with
  | failed => rfl
  | found _ whole rest =>
    dsimp only [Scan.mapRest]
    rw [splitFraction_text, scanExponent_text]
    exact (Scan.mapRest_after _ _ _).symm

theorem scanNumber_text (cs : List Char) :
    scanNumber (spelling.text cs) = (scanNumber cs).mapRest spelling.text := by
  have unsigned : (∀ c ∈ cs.head?, c ≠ '-') → (∀ c ∈ (spelling.text cs).head?, c ≠ '-') →
      scanNumber (spelling.text cs) = (scanNumber cs).mapRest spelling.text := by
    intro noMinus noMinusAgain
    rw [scanNumber_unsigned noMinus, scanNumber_unsigned noMinusAgain, scanUnsigned_text]
  rcases spelling.text_cases cs with ⟨c, others, rfl, -, same⟩ | ⟨ended, endedAgain⟩
  · by_cases minus : c = '-'
    · subst minus
      rw [same]
      simp only [scanNumber]
      rw [scanUnsigned_text, Scan.mapRest_after]
    · apply unsigned
      · simpa using minus
      · rw [same]
        simpa using minus
  · exact unsigned (ended.all _ (by decide) (by decide)) (endedAgain.all _ (by decide) (by decide))

theorem afterWord?_text {word : String} (inLine : IsInLine word.toList)
    (cs : List Char) : afterWord? word (spelling.text cs) = (afterWord? word cs).map spelling.text := by
  unfold afterWord?
  rw [spelling.isPrefixOf_text inLine]
  split
  next starts =>
    simp only [spelling.drop_text inLine starts]
    rw [spelling.getD_head?_text (p := isIdentifierChar) (by decide) (by decide)]
    split <;> rfl
  next => rfl

theorem scanWord_text (cs : List Char) :
    scanWord (spelling.text cs) = (scanWord cs).mapRest spelling.text := by
  have isTrue := spelling.afterWord?_text (show IsInLine "true".toList by decide) cs
  have isFalse := spelling.afterWord?_text (show IsInLine "false".toList by decide) cs
  have isNull := spelling.afterWord?_text (show IsInLine "null".toList by decide) cs
  simp only [scanWord, isTrue, isFalse, isNull]
  cases afterWord? "true" cs with
  | some => rfl
  | none =>
    cases afterWord? "false" cs with
    | some => rfl
    | none =>
      cases afterWord? "null" cs with
      | some => rfl
      | none => rfl

/-!
## Strings
-/

/-- What stands in a line of a respelled text stands in the text. -/
theorem exists_of_text {cs passed rest : List Char} (whole : spelling.text cs = passed ++ rest)
    (inLine : '\n' ∉ passed) (solid : passed.getLast? ≠ some '\r') :
    ∃ others, cs = passed ++ others := by
  induction passed generalizing cs with
  | nil => exact ⟨cs, rfl⟩
  | cons first passed ih =>
    rw [List.mem_cons, not_or] at inLine
    have notFeed : first ≠ '\n' := Ne.symm inLine.1
    cases cs with
    | nil =>
      exfalso
      rw [text, chars, List.flatMap_nil, List.nil_append] at whole
      rcases spelling.breaks with none | ⟨others, lineFeed⟩
      · rw [none] at whole
        cases whole
      · rw [lineFeed] at whole
        exact notFeed (List.cons.inj whole).1.symm
    | cons c others =>
      by_cases lineFeed : c = '\n'
      · -- A carriage return that was written down is followed by a line feed.
        exfalso
        subst lineFeed
        rw [text_lineFeed] at whole
        split at whole
        · obtain ⟨isReturn, behind⟩ := List.cons.inj whole
          cases passed with
          | nil => exact solid (by rw [isReturn]; rfl)
          | cons second passed => exact inLine.2 (by rw [(List.cons.inj behind).1]; exact List.mem_cons_self)
        · exact notFeed (List.cons.inj whole).1.symm
      · rw [spelling.text_cons lineFeed] at whole
        obtain ⟨rfl, behind⟩ := List.cons.inj whole
        cases passed with
        | nil => exact ⟨others, rfl⟩
        | cons second passed =>
          rw [List.getLast?_cons_cons] at solid
          obtain ⟨rest, rfl⟩ := ih behind inLine.2 solid
          exact ⟨rest, rfl⟩

theorem scanContents_text_found {quote : Char} {cs contents passed rest : List Char}
    (found : scanContents quote cs = .found contents passed rest) :
    scanContents quote (spelling.text cs) = .found contents passed (spelling.text rest) := by
  have whole := whole_scanContents quote cs
  have inLine := not_lineFeed_of_scanContents quote cs
  rw [found] at whole inLine
  rw [← whole]
  exact (congrArg _ (spelling.text_of_inLine inLine rest)).trans (scanContents_passed found _)

theorem exists_scanContents_text_failed {quote : Char} (notReturn : quote ≠ '\r')
    {cs passed rest : List Char} {fault : Literal.Fault}
    (failed : scanContents quote cs = .failed fault passed rest) :
    ∃ again others after, scanContents quote (spelling.text cs) = .failed again others after := by
  cases scanned : scanContents quote (spelling.text cs) with
  | failed again others after => exact ⟨again, others, after, rfl⟩
  | found contents others after =>
    -- A string of the respelled text would have been one of the text.
    have whole := whole_scanContents quote (spelling.text cs)
    have inLine := not_lineFeed_of_scanContents quote (spelling.text cs)
    rw [scanned] at whole inLine
    obtain ⟨behind, rfl⟩ := spelling.exists_of_text whole.symm inLine (by
      rw [getLast?_of_scanContents scanned]
      simpa using notReturn)
    rw [scanContents_passed scanned] at failed
    cases failed

/-!
## Literals
-/

theorem scan_cons_of_quote {c : Char} (quoted : c = '"' ∨ c = '\'') (others : List Char) :
    scan (c :: others) = ((scanContents c others).map fun contents =>
      Literal.string (String.ofList contents)).after [c] := by
  simp only [scan, if_pos quoted]

/-- Only a string may fail elsewhere. -/
theorem scan_text_of_noQuote {cs : List Char} (noQuote : ∀ c ∈ cs.head?, ¬(c = '"' ∨ c = '\'')) :
    scan (spelling.text cs) = (scan cs).mapRest spelling.text := by
  rcases spelling.text_cases cs with ⟨c, others, rfl, -, same⟩ | ⟨ended, endedAgain⟩
  · have notQuoted := noQuote c rfl
    have number := spelling.scanNumber_text (c :: others)
    have word := spelling.scanWord_text (c :: others)
    rw [same] at number word ⊢
    simp only [scan, if_neg notQuoted, number, word]
    split
    · cases scanNumber (c :: others) <;> rfl
    · rfl
  · have missing : ∀ {others : List Char}, AtLineEnd others → scan others = .failed .missing [] others := by
      intro others ended
      cases others with
      | nil => rfl
      | cons c rest =>
        rcases ended c rfl with rfl | rfl
        · rfl
        · rfl
    rw [missing endedAgain, missing ended]
    rfl

theorem scan_text_found {cs passed rest : List Char} {literal : Literal}
    (found : scan cs = .found literal passed rest) :
    scan (spelling.text cs) = .found literal passed (spelling.text rest) := by
  by_cases quoted : ∃ c ∈ cs.head?, c = '"' ∨ c = '\''
  · obtain ⟨c, front, quoted⟩ := quoted
    obtain ⟨others, rfl⟩ := List.head?_eq_some_iff.mp front
    have inLine : c ≠ '\n' := by
      rintro rfl
      exact absurd quoted (by decide)
    rw [scan_cons_of_quote quoted] at found
    obtain ⟨later, mapped, rfl⟩ := Scan.after_eq_found found
    obtain ⟨contents, scanned, rfl⟩ := Scan.map_eq_found mapped
    rw [spelling.text_cons inLine, scan_cons_of_quote quoted, spelling.scanContents_text_found scanned]
    rfl
  · rw [spelling.scan_text_of_noQuote fun c front isQuote => quoted ⟨c, front, isQuote⟩, found]
    rfl

/-- Where no literal is found in the text, none is found in the respelled one, on the same line. -/
theorem exists_scan_text_failed {cs passed rest : List Char} {fault : Literal.Fault}
    (failed : scan cs = .failed fault passed rest) :
    ∃ again others after, scan (spelling.text cs) = .failed again others after
      ∧ others.count '\n' = passed.count '\n' := by
  by_cases quoted : ∃ c ∈ cs.head?, c = '"' ∨ c = '\''
  · obtain ⟨c, front, quoted⟩ := quoted
    obtain ⟨others, rfl⟩ := List.head?_eq_some_iff.mp front
    have inLine : c ≠ '\n' := by
      rintro rfl
      exact absurd quoted (by decide)
    have notReturn : c ≠ '\r' := by
      rintro rfl
      exact absurd quoted (by decide)
    have lines : ∀ others : List Char, (scan (c :: others)).passed.count '\n' = 0 := by
      intro others
      rw [scan_cons_of_quote quoted, Scan.passed_after, Scan.passed_map, List.count_eq_zero,
        List.mem_append, not_or]
      exact ⟨by simpa using Ne.symm inLine, not_lineFeed_of_scanContents c others⟩
    have line := lines others
    have lineAgain := lines (spelling.text others)
    rw [failed] at line
    rw [scan_cons_of_quote quoted] at failed lineAgain
    obtain ⟨inner, mapped, -⟩ := Scan.after_eq_failed failed
    have scanned := Scan.map_eq_failed mapped
    obtain ⟨again, laterAgain, after, scannedAgain⟩ :=
      spelling.exists_scanContents_text_failed notReturn scanned
    rw [scannedAgain] at lineAgain
    rw [spelling.text_cons inLine, scan_cons_of_quote quoted, scannedAgain]
    exact ⟨again, _, after, rfl, lineAgain.trans line.symm⟩
  · rw [spelling.scan_text_of_noQuote fun c front isQuote => quoted ⟨c, front, isQuote⟩, failed]
    exact ⟨_, _, _, rfl, rfl⟩

end Respelling

end ApiDef.Text
