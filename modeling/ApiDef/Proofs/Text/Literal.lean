import ApiDef.Proofs.Text.Scanning
import ApiDef.Text.Literal
set_option autoImplicit false

/-!
# Literals end where they end

A literal that was scanned is scanned again from its own text, whatever follows, as long as what
follows cannot continue a word or a number. A quoted text is scanned back to what was quoted.
-/

namespace ApiDef.Text

/-- Nothing at the start of a text continues a word or a number. -/
def Delimits (tail : List Char) : Prop :=
  ∀ c others, tail = c :: others → isIdentifierChar c = false ∧ c ≠ '.'

theorem delimits_nil : Delimits [] := by
  intro c others same
  cases same

theorem delimits_cons {c : Char} {others : List Char} (notWord : isIdentifierChar c = false)
    (notPoint : c ≠ '.') : Delimits (c :: others) := by
  intro first rest same
  cases same
  exact ⟨notWord, notPoint⟩

theorem Delimits.stopsWords {tail : List Char} (delimits : Delimits tail) :
    Stops isIdentifierChar tail :=
  fun c others same => (delimits c others same).1

theorem isIdentifierChar_of_isDigit {c : Char} (digit : c.isDigit = true) :
    isIdentifierChar c = true := by
  simp [isIdentifierChar, Char.isAlphanum, digit]

theorem Delimits.stopsDigits {tail : List Char} (delimits : Delimits tail) :
    Stops Char.isDigit tail := by
  intro c others same
  cases digit : c.isDigit with
  | false => rfl
  | true =>
    have inside := (delimits c others same).1
    rw [isIdentifierChar_of_isDigit digit] at inside
    cases inside

namespace Literal

theorem Scan.map_eq_found {α β : Type} {f : α → β} {scan : Scan α} {value : β}
    {passed rest : List Char} (same : scan.map f = .found value passed rest) :
    ∃ inner, scan = .found inner passed rest ∧ value = f inner := by
  cases scan with
  | found inner before others =>
    simp only [Scan.map, Scan.found.injEq] at same
    obtain ⟨rfl, rfl, rfl⟩ := same
    exact ⟨inner, rfl, rfl⟩
  | failed => simp [Scan.map] at same

theorem Scan.after_eq_found {α : Type} {before : List Char} {scan : Scan α} {value : α}
    {passed rest : List Char} (same : scan.after before = .found value passed rest) :
    ∃ later, scan = .found value later rest ∧ passed = before ++ later := by
  cases scan with
  | found inner later others =>
    simp only [Scan.after, Scan.found.injEq] at same
    obtain ⟨rfl, rfl, rfl⟩ := same
    exact ⟨later, rfl, rfl⟩
  | failed => simp [Scan.after] at same

theorem Scan.map_eq_failed {α β : Type} {f : α → β} {scan : Scan α} {fault : Fault}
    {passed rest : List Char} (same : scan.map f = .failed fault passed rest) :
    scan = .failed fault passed rest := by
  cases scan with
  | found => cases same
  | failed =>
    obtain ⟨rfl, rfl, rfl⟩ := Scan.failed.inj same
    rfl

theorem Scan.after_eq_failed {α : Type} {before : List Char} {scan : Scan α} {fault : Fault}
    {passed rest : List Char} (same : scan.after before = .failed fault passed rest) :
    ∃ later, scan = .failed fault later rest ∧ passed = before ++ later := by
  cases scan with
  | found => cases same
  | failed inner later others =>
    obtain ⟨rfl, rfl, rfl⟩ := Scan.failed.inj same
    exact ⟨later, rfl, rfl⟩

theorem isIdentifierChar_of_hexValue? {c : Char} {value : Nat}
    (hex : hexValue? c = some value) : isIdentifierChar c = true := by
  have ofAlpha : c.isAlpha = true → isIdentifierChar c = true := by
    intro letter
    rw [isIdentifierChar, Char.isAlphanum, letter]
    rfl
  unfold hexValue? at hex
  split at hex
  next digit => exact isIdentifierChar_of_isDigit digit
  next =>
    split at hex
    next lower =>
      have within : c.isLower = true :=
        Bool.and_eq_true_iff.mpr
          ⟨decide_eq_true lower.1, decide_eq_true (Char.le_trans lower.2 (by decide))⟩
      exact ofAlpha (Bool.or_eq_true_iff.mpr (.inr within))
    next =>
      split at hex
      next upper =>
        have within : c.isUpper = true :=
          decide_eq_true ⟨upper.1, Char.le_trans upper.2 (by decide)⟩
        exact ofAlpha (Bool.or_eq_true_iff.mpr (.inl within))
      next => cases hex

theorem isIdentifierChar_of_hexNumber? {digits : List Char} {value : Nat}
    (hex : hexNumber? digits = some value) : ∀ c ∈ digits, isIdentifierChar c = true := by
  have each : ∀ start : Option Nat,
      digits.foldl (fun total c => do return (← total) * 16 + (← hexValue? c)) start
        = some value →
      ∃ first, start = some first ∧ ∀ c ∈ digits, isIdentifierChar c = true := by
    clear hex
    induction digits with
    | nil => exact fun start same => ⟨value, same, List.forall_mem_nil _⟩
    | cons c digits ih =>
      intro start folded
      obtain ⟨next, same, others⟩ := ih _ folded
      obtain ⟨first, rfl, digit⟩ := Option.bind_eq_some_iff.mp same
      obtain ⟨found, isDigit, -⟩ := Option.bind_eq_some_iff.mp digit
      exact ⟨first, rfl, List.forall_mem_cons.mpr ⟨isIdentifierChar_of_hexValue? isDigit, others⟩⟩
  obtain ⟨-, -, inside⟩ := each (some 0) hex
  exact inside

theorem isIdentifierChar_of_mem_leadingHex (cs : List Char) :
    ∀ c ∈ leadingHex cs, isIdentifierChar c = true := by
  intro c member
  have isHex : (hexValue? c).isSome = true := List.all_eq_true.mp List.all_takeWhile c member
  obtain ⟨value, hex⟩ := Option.isSome_iff_exists.mp isHex
  exact isIdentifierChar_of_hexValue? hex

theorem ne_lineFeed_of_shortEscape? {c character : Char}
    (decoded : shortEscape? c = some character) : c ≠ '\n' := by
  rintro rfl
  rw [show shortEscape? '\n' = none by decide] at decoded
  cases decoded

theorem scanContents_close {quote : Char} (notLineFeed : quote ≠ '\n') (tail : List Char) :
    scanContents quote (quote :: tail) = .found [] [quote] tail := by
  rw [scanContents.eq_def]
  simp [notLineFeed]

theorem scanContents_plain {quote c : Char} (notLineFeed : c ≠ '\n') (notQuote : c ≠ quote)
    (notEscape : c ≠ '\\') (others : List Char) :
    scanContents quote (c :: others) = ((scanContents quote others).map (c :: ·)).after [c] := by
  rw [scanContents.eq_def]
  simp [notLineFeed, notQuote, notEscape]

theorem scanContents_hex {quote a b d e character : Char} (notQuote : '\\' ≠ quote)
    (decoded : (hexNumber? [a, b, d, e]).bind scalar? = some character) (others : List Char) :
    scanContents quote ('\\' :: 'u' :: a :: b :: d :: e :: others)
      = ((scanContents quote others).map (character :: ·)).after ['\\', 'u', a, b, d, e] := by
  simp [scanContents, notQuote, decoded]

theorem scanContents_escaped {quote escaped character : Char} (notQuote : '\\' ≠ quote)
    (decoded : shortEscape? escaped = some character) (others : List Char) :
    scanContents quote ('\\' :: escaped :: others)
      = ((scanContents quote others).map (character :: ·)).after ['\\', escaped] := by
  have notHex : escaped ≠ 'u' := by
    rintro rfl
    simp [shortEscape?] at decoded
  simp [scanContents, notQuote, decoded, notHex]

/-- The contents of a string end at their closing quote, whatever follows. -/
theorem scanContents_passed {quote : Char} {cs contents passed rest : List Char}
    (found : scanContents quote cs = .found contents passed rest) (tail : List Char) :
    scanContents quote (passed ++ tail) = .found contents passed tail := by
  fun_induction scanContents quote cs generalizing contents passed with
  | case3 others notLineFeed =>
    obtain ⟨rfl, rfl, -⟩ := Scan.found.inj found
    exact scanContents_close notLineFeed tail
  | case5 a b d e others character decoded _ notQuote ih =>
    obtain ⟨later, mapped, rfl⟩ := Scan.after_eq_found found
    obtain ⟨inner, scanned, rfl⟩ := Scan.map_eq_found mapped
    simp only [List.cons_append, List.nil_append]
    rw [scanContents_hex notQuote decoded, ih scanned]
    rfl
  | case8 escaped others _ _ character decoded _ notQuote ih =>
    obtain ⟨later, mapped, rfl⟩ := Scan.after_eq_found found
    obtain ⟨inner, scanned, rfl⟩ := Scan.map_eq_found mapped
    simp only [List.cons_append, List.nil_append]
    rw [scanContents_escaped notQuote decoded, ih scanned]
    rfl
  | case10 c others notLineFeed notQuote notEscape ih =>
    obtain ⟨later, mapped, rfl⟩ := Scan.after_eq_found found
    obtain ⟨inner, scanned, rfl⟩ := Scan.map_eq_found mapped
    simp only [List.cons_append, List.nil_append]
    rw [scanContents_plain notLineFeed notQuote notEscape, ih scanned]
    rfl
  | _ => simp at found

theorem scanDigits_eq_found {cs passed rest : List Char} (found : scanDigits cs = .found () passed rest) :
    passed ≠ [] ∧ ∀ c ∈ passed, c.isDigit = true := by
  simp only [scanDigits] at found
  split at found
  · simp at found
  next nonempty =>
    obtain ⟨-, rfl, -⟩ := Scan.found.inj found
    exact ⟨by simpa using nonempty, List.all_eq_true.mp List.all_takeWhile⟩

theorem scanDigits_append {digits tail : List Char} (nonempty : digits ≠ [])
    (all : ∀ c ∈ digits, c.isDigit = true)
    (stop : Stops Char.isDigit tail) : scanDigits (digits ++ tail) = .found () digits tail := by
  simp [scanDigits, takeWhile_of_stops all stop, dropWhile_of_stops all stop, nonempty]

theorem scanExponent_passed {cs passed rest tail : List Char}
    (found : scanExponent cs = .found () passed rest) (delimits : Delimits tail) :
    scanExponent (passed ++ tail) = .found () passed tail := by
  have stop := delimits.stopsDigits
  have absent : scanExponent tail = .found () [] tail := by
    cases tail with
    | nil => rfl
    | cons c others =>
      have notMark : ¬(c = 'e' ∨ c = 'E') := by
        rintro (rfl | rfl) <;> exact absurd (delimits _ _ rfl).1 (by decide)
      simp only [scanExponent, if_neg notMark]
  cases cs with
  | nil =>
    obtain ⟨-, rfl, -⟩ := Scan.found.inj found
    exact absent
  | cons mark rest' =>
    simp only [scanExponent] at found
    split at found
    next isMark =>
      split at found
      next sign digits =>
        split at found
        next signed =>
          obtain ⟨later, scanned, rfl⟩ := Scan.after_eq_found found
          obtain ⟨nonempty, all⟩ := scanDigits_eq_found scanned
          simp only [List.cons_append, List.nil_append, scanExponent, if_pos isMark, if_pos signed,
            scanDigits_append nonempty all stop]
          rfl
        next unsigned =>
          obtain ⟨later, scanned, rfl⟩ := Scan.after_eq_found found
          obtain ⟨nonempty, all⟩ := scanDigits_eq_found scanned
          obtain ⟨d, others, rfl⟩ := List.exists_cons_of_ne_nil nonempty
          have notSign : ¬(d = '+' ∨ d = '-') := by
            rintro (rfl | rfl) <;> exact absurd (all _ List.mem_cons_self) (by decide)
          simp only [List.cons_append, List.nil_append, scanExponent, if_pos isMark,
            if_neg notSign]
          rw [← List.cons_append, scanDigits_append nonempty all stop]
          rfl
      next => simp [scanDigits, Scan.after] at found
    next =>
      obtain ⟨-, rfl, -⟩ := Scan.found.inj found
      exact absent

/-- An exponent, if there is one, starts with its mark. -/
theorem scanExponent_eq_found {cs passed rest : List Char}
    (found : scanExponent cs = .found () passed rest) :
    passed = [] ∨ ∃ mark later, passed = mark :: later ∧ (mark = 'e' ∨ mark = 'E') := by
  unfold scanExponent at found
  split at found
  · split at found
    next isMark =>
      right
      split at found
      · split at found
        all_goals
          obtain ⟨later, -, rfl⟩ := Scan.after_eq_found found
          exact ⟨_, _, rfl, isMark⟩
      · simp [scanDigits, Scan.after] at found
    next => exact .inl (Scan.found.inj found).2.1.symm
  · exact .inl (Scan.found.inj found).2.1.symm

theorem splitFraction_eq {cs fraction others : List Char}
    (split : splitFraction cs = (fraction, others)) :
    fraction = [] ∨ ∃ later, fraction = '.' :: later := by
  unfold splitFraction at split
  split at split
  · split at split
    · exact .inr ⟨_, (Prod.mk.inj split).1.symm⟩
    · exact .inl (Prod.mk.inj split).1.symm
  · exact .inl (Prod.mk.inj split).1.symm

theorem splitFraction_again {cs fraction others tail : List Char}
    (split : splitFraction cs = (fraction, others))
    (stop : ∀ c others, tail = c :: others → c.isDigit = false ∧ c ≠ '.') :
    splitFraction (fraction ++ tail) = (fraction, tail) := by
  have absent : splitFraction tail = ([], tail) := by
    unfold splitFraction
    split
    next => exact absurd rfl (stop _ _ rfl).2
    next => rfl
  unfold splitFraction at split
  split at split
  next d rest =>
    split at split
    next digit =>
      obtain ⟨rfl, -⟩ := Prod.mk.inj split
      have all := List.all_eq_true.mp (List.all_takeWhile (p := Char.isDigit) (l := d :: rest))
      have digitsStop : Stops Char.isDigit tail := fun c others same => (stop c others same).1
      have taken := takeWhile_of_stops all digitsStop
      have dropped := dropWhile_of_stops all digitsStop
      rw [List.takeWhile_cons_of_pos digit] at taken dropped ⊢
      simp only [List.cons_append, splitFraction, if_pos digit] at taken dropped ⊢
      rw [taken, dropped]
    next =>
      obtain ⟨rfl, -⟩ := Prod.mk.inj split
      exact absent
  next =>
    obtain ⟨rfl, -⟩ := Prod.mk.inj split
    exact absent

theorem scanUnsigned_passed {cs passed rest tail : List Char}
    (found : scanUnsigned cs = .found () passed rest) (delimits : Delimits tail) :
    scanUnsigned (passed ++ tail) = .found () passed tail := by
  unfold scanUnsigned at found
  split at found
  next => simp at found
  next whole afterWhole scanned =>
    cases fractionSplit : splitFraction afterWhole with
    | mk fraction others =>
      simp only [fractionSplit] at found
      obtain ⟨exponent, exponentFound, rfl⟩ := Scan.after_eq_found found
      obtain ⟨nonempty, all⟩ := scanDigits_eq_found scanned
      have stop : ∀ c others, exponent ++ tail = c :: others → c.isDigit = false ∧ c ≠ '.' := by
        intro c others same
        rcases scanExponent_eq_found exponentFound with rfl | ⟨mark, later, rfl, isMark⟩
        · exact ⟨delimits.stopsDigits c others same, (delimits c others same).2⟩
        · obtain ⟨rfl, -⟩ := List.cons.inj same
          rcases isMark with rfl | rfl <;> decide
      have fractionAgain := splitFraction_again fractionSplit stop
      have wholeStop : Stops Char.isDigit (fraction ++ (exponent ++ tail)) := by
        intro c others' same
        rcases splitFraction_eq fractionSplit with rfl | ⟨later, rfl⟩
        · exact (stop c others' same).1
        · obtain ⟨rfl, -⟩ := List.cons.inj same
          decide
      have wholeAgain := scanDigits_append nonempty all wholeStop
      simp only [List.append_assoc, scanUnsigned, wholeAgain, fractionAgain,
        scanExponent_passed exponentFound delimits]
      simp [Scan.after]

theorem scanUnsigned_eq_found {cs passed rest : List Char}
    (found : scanUnsigned cs = .found () passed rest) :
    ∃ digit later, passed = digit :: later ∧ digit.isDigit = true := by
  unfold scanUnsigned at found
  split at found
  next => simp at found
  next whole afterWhole scanned =>
    obtain ⟨nonempty, all⟩ := scanDigits_eq_found scanned
    obtain ⟨later, -, rfl⟩ := Scan.after_eq_found found
    obtain ⟨digit, others, rfl⟩ := List.exists_cons_of_ne_nil nonempty
    exact ⟨digit, _, rfl, all digit List.mem_cons_self⟩

theorem scanNumber_passed {cs passed rest tail : List Char}
    (found : scanNumber cs = .found () passed rest) (delimits : Delimits tail) :
    scanNumber (passed ++ tail) = .found () passed tail := by
  unfold scanNumber at found
  split at found
  next others =>
    obtain ⟨later, scanned, rfl⟩ := Scan.after_eq_found found
    simp only [List.cons_append, List.nil_append, scanNumber,
      scanUnsigned_passed scanned delimits]
    rfl
  next unsigned =>
    have again := scanUnsigned_passed found delimits
    obtain ⟨digit, later, rfl, isDigit⟩ := scanUnsigned_eq_found found
    rw [scanNumber]
    · exact again
    · rintro others same
      obtain ⟨rfl, -⟩ := List.cons.inj same
      exact absurd isDigit (by decide)

/-- A number starts with a digit or with a minus sign. -/
theorem scanNumber_eq_found {cs passed rest : List Char}
    (found : scanNumber cs = .found () passed rest) :
    ∃ first later, passed = first :: later ∧ (first = '-' ∨ first.isDigit = true) := by
  unfold scanNumber at found
  split at found
  · obtain ⟨later, -, rfl⟩ := Scan.after_eq_found found
    exact ⟨'-', later, rfl, .inl rfl⟩
  · obtain ⟨digit, later, rfl, isDigit⟩ := scanUnsigned_eq_found found
    exact ⟨digit, later, rfl, .inr isDigit⟩

theorem scanWord_passed {cs passed rest tail : List Char} {literal : Literal}
    (found : scanWord cs = .found literal passed rest) (delimits : Delimits tail) :
    scanWord (passed ++ tail) = .found literal passed tail := by
  unfold scanWord at found
  split at found
  · obtain ⟨rfl, rfl, -⟩ := Scan.found.inj found
    simp only [scanWord, afterWord?_append delimits.stopsWords]
  · split at found
    · obtain ⟨rfl, rfl, -⟩ := Scan.found.inj found
      have notTrue : afterWord? "true" ("false".toList ++ tail) = none := rfl
      simp only [scanWord, notTrue, afterWord?_append delimits.stopsWords]
    · split at found
      · obtain ⟨rfl, rfl, -⟩ := Scan.found.inj found
        have notTrue : afterWord? "true" ("null".toList ++ tail) = none := rfl
        have notFalse : afterWord? "false" ("null".toList ++ tail) = none := rfl
        simp only [scanWord, notTrue, notFalse, afterWord?_append delimits.stopsWords]
      · simp at found

theorem scanWord_eq_found {cs passed rest : List Char} {literal : Literal}
    (found : scanWord cs = .found literal passed rest) :
    ∃ first later, passed = first :: later ∧
      ¬(first = '"' ∨ first = '\'') ∧ ¬(first = '-' ∨ first.isDigit = true) := by
  unfold scanWord at found
  repeat' split at found
  all_goals try simp at found
  all_goals
    obtain ⟨-, rfl, -⟩ := found
    exact ⟨_, _, rfl, by decide, by decide⟩

/-!
## The characters of a literal
-/

/-- A digit, or one of the marks that a number may have. -/
def isNumberChar (c : Char) : Bool :=
  c.isDigit || ['-', '+', '.', 'e', 'E'].contains c

theorem isNumberChar_of_scanDigits {cs passed rest : List Char}
    (found : scanDigits cs = .found () passed rest) : ∀ c ∈ passed, isNumberChar c = true :=
  fun c member => Bool.or_eq_true_iff.mpr (.inl ((scanDigits_eq_found found).2 c member))

theorem isNumberChar_of_scanExponent {cs passed rest : List Char}
    (found : scanExponent cs = .found () passed rest) : ∀ c ∈ passed, isNumberChar c = true := by
  have markInside : ∀ mark : Char, mark = 'e' ∨ mark = 'E' → isNumberChar mark = true := by
    rintro mark (rfl | rfl) <;> decide
  have signInside : ∀ sign : Char, sign = '+' ∨ sign = '-' → isNumberChar sign = true := by
    rintro sign (rfl | rfl) <;> decide
  unfold scanExponent at found
  split at found
  next mark others =>
    split at found
    next isMark =>
      split at found
      next sign digits =>
        split at found
        next signed =>
          obtain ⟨later, scanned, rfl⟩ := Scan.after_eq_found found
          exact List.forall_mem_cons.mpr ⟨markInside mark isMark,
            List.forall_mem_cons.mpr ⟨signInside sign signed, isNumberChar_of_scanDigits scanned⟩⟩
        next =>
          obtain ⟨later, scanned, rfl⟩ := Scan.after_eq_found found
          exact List.forall_mem_cons.mpr ⟨markInside mark isMark, isNumberChar_of_scanDigits scanned⟩
      next =>
        obtain ⟨later, scanned, rfl⟩ := Scan.after_eq_found found
        exact List.forall_mem_cons.mpr ⟨markInside mark isMark, isNumberChar_of_scanDigits scanned⟩
    next =>
      rw [← (Scan.found.inj found).2.1]
      exact List.forall_mem_nil _
  next =>
    rw [← (Scan.found.inj found).2.1]
    exact List.forall_mem_nil _

theorem isNumberChar_splitFraction (cs : List Char) :
    ∀ c ∈ (splitFraction cs).1, isNumberChar c = true := by
  unfold splitFraction
  split
  next d rest =>
    split
    next =>
      refine List.forall_mem_cons.mpr ⟨by decide, fun c member => ?_⟩
      exact Bool.or_eq_true_iff.mpr (.inl (List.all_eq_true.mp List.all_takeWhile c member))
    next => exact List.forall_mem_nil _
  next => exact List.forall_mem_nil _

theorem isNumberChar_of_scanUnsigned {cs passed rest : List Char}
    (found : scanUnsigned cs = .found () passed rest) : ∀ c ∈ passed, isNumberChar c = true := by
  unfold scanUnsigned at found
  split at found
  next => cases found
  next whole afterWhole scanned =>
    obtain ⟨exponent, exponentFound, rfl⟩ := Scan.after_eq_found found
    rw [List.forall_mem_append, List.forall_mem_append]
    exact ⟨⟨isNumberChar_of_scanDigits scanned, isNumberChar_splitFraction afterWhole⟩,
      isNumberChar_of_scanExponent exponentFound⟩

theorem isNumberChar_of_scanNumber {cs passed rest : List Char}
    (found : scanNumber cs = .found () passed rest) : ∀ c ∈ passed, isNumberChar c = true := by
  unfold scanNumber at found
  split at found
  next =>
    obtain ⟨later, scanned, rfl⟩ := Scan.after_eq_found found
    exact List.forall_mem_cons.mpr ⟨by decide, isNumberChar_of_scanUnsigned scanned⟩
  next => exact isNumberChar_of_scanUnsigned found

theorem exists_of_scanWord {cs passed rest : List Char} {literal : Literal}
    (found : scanWord cs = .found literal passed rest) :
    ∃ word ∈ ["true", "false", "null"], passed = word.toList := by
  unfold scanWord at found
  repeat' split at found
  next => exact ⟨"true", by decide, (Scan.found.inj found).2.1.symm⟩
  next => exact ⟨"false", by decide, (Scan.found.inj found).2.1.symm⟩
  next => exact ⟨"null", by decide, (Scan.found.inj found).2.1.symm⟩
  next => cases found

/-- A literal is a string, a number or a word. -/
theorem scan_cases {cs passed rest : List Char} {literal : Literal}
    (found : scan cs = .found literal passed rest) :
    (∃ quote others contents inside, (quote = '"' ∨ quote = '\'') ∧ cs = quote :: others
      ∧ passed = quote :: inside ∧ scanContents quote others = .found contents inside rest)
    ∨ (∀ c ∈ passed, isNumberChar c = true)
    ∨ ∃ word ∈ ["true", "false", "null"], passed = word.toList := by
  cases cs with
  | nil => cases found
  | cons c others =>
    rw [scan] at found
    split at found
    next quoted =>
      obtain ⟨inside, mapped, rfl⟩ := Scan.after_eq_found found
      obtain ⟨contents, scanned, -⟩ := Scan.map_eq_found mapped
      exact .inl ⟨c, others, contents, inside, quoted, rfl, rfl, scanned⟩
    next =>
      split at found
      next =>
        split at found
        next number =>
          obtain ⟨-, rfl, rfl⟩ := Scan.found.inj found
          exact .inr (.inl (isNumberChar_of_scanNumber number))
        next => cases found
      next => exact .inr (.inr (exists_of_scanWord found))

/-- A literal that was scanned is scanned again from the text it passed over, whatever follows that
cannot continue it. -/
theorem scan_passed {cs passed rest tail : List Char} {literal : Literal}
    (found : scan cs = .found literal passed rest) (delimits : Delimits tail) :
    scan (passed ++ tail) = .found literal passed tail := by
  cases cs with
  | nil => simp [scan] at found
  | cons c others =>
    simp only [scan] at found
    split at found
    next quoted =>
      obtain ⟨later, mapped, rfl⟩ := Scan.after_eq_found found
      obtain ⟨contents, scanned, rfl⟩ := Scan.map_eq_found mapped
      simp only [List.cons_append, List.nil_append, scan, if_pos quoted,
        scanContents_passed scanned tail]
      rfl
    next notQuoted =>
      split at found
      next numeric =>
        split at found
        next scanned =>
          obtain ⟨rfl, rfl, -⟩ := Scan.found.inj found
          have again := scanNumber_passed scanned delimits
          obtain ⟨first, later, rfl, isNumeric⟩ := scanNumber_eq_found scanned
          have notQuote : ¬(first = '"' ∨ first = '\'') := by
            rintro (rfl | rfl) <;> exact absurd isNumeric (by decide)
          rw [List.cons_append] at again ⊢
          simp only [scan, if_neg notQuote, if_pos isNumeric, again]
        next => simp at found
      next notNumeric =>
        have again := scanWord_passed found delimits
        obtain ⟨first, later, rfl, notQuote, notNumber⟩ := scanWord_eq_found found
        rw [List.cons_append] at again ⊢
        simp only [scan, if_neg notQuote, if_neg notNumber, again]

theorem scan_passed_nil {passed : List Char} {literal : Literal} {cs rest : List Char}
    (found : scan cs = .found literal passed rest) : scan passed = .found literal passed [] := by
  have again := scan_passed found delimits_nil
  rwa [List.append_nil] at again

/-!
## Quoted texts
-/

theorem scalar?_toNat (c : Char) : scalar? c.toNat = some c := by
  have valid : c.toNat.isValidChar := c.valid
  simp [scalar?, valid]

theorem hexNumber?_fourHexDigits : ∀ n < 160, hexNumber? (fourHexDigits n) = some n := by
  decide +kernel

theorem toNat_lt_of_isControl {c : Char} (control : isControl c = true) : c.toNat < 160 := by
  simp only [isControl, Bool.or_eq_true, Bool.and_eq_true, decide_eq_true_eq] at control
  omega

/-- How a character is written in a quoted text. -/
inductive Escaped : Char → List Char → Prop where
  | quote : Escaped '"' ['\\', '"']
  | backslash : Escaped '\\' ['\\', '\\']
  | lineFeed : Escaped '\n' ['\\', 'n']
  | carriageReturn : Escaped '\r' ['\\', 'r']
  | tab : Escaped '\t' ['\\', 't']
  | control {c : Char} : isControl c = true → Escaped c ('\\' :: 'u' :: fourHexDigits c.toNat)
  | plain {c : Char} : c ≠ '"' → c ≠ '\\' → isControl c = false → Escaped c [c]

theorem escaped_escape (c : Char) : Escaped c (escape c) := by
  unfold escape
  split
  next same => subst same; exact .quote
  split
  next same => subst same; exact .backslash
  split
  next same => subst same; exact .lineFeed
  split
  next same => subst same; exact .carriageReturn
  split
  next same => subst same; exact .tab
  split
  next control => exact .control control
  next notQuote notEscape _ _ _ notControl =>
    exact .plain notQuote notEscape (Bool.eq_false_iff.mpr notControl)

/-- What is written for one character stands for that character. -/
theorem scanContents_escape (c : Char) (others : List Char) :
    scanContents '"' (escape c ++ others)
      = ((scanContents '"' others).map (c :: ·)).after (escape c) := by
  have notQuote : '\\' ≠ '"' := by decide
  have escaped := escaped_escape c
  generalize escape c = spelling at escaped ⊢
  cases escaped with
  | quote | backslash | lineFeed | carriageReturn | tab =>
    exact scanContents_escaped notQuote rfl others
  | control control =>
    have digits := hexNumber?_fourHexDigits c.toNat (toNat_lt_of_isControl control)
    exact scanContents_hex notQuote (by rw [← fourHexDigits, digits]; exact scalar?_toNat c) others
  | plain notClosing notEscape notControl =>
    have notLineFeed : c ≠ '\n' := by
      rintro rfl
      exact absurd notControl (by decide)
    exact scanContents_plain notLineFeed notClosing notEscape others

theorem scanContents_quoted (cs tail : List Char) :
    scanContents '"' (cs.flatMap escape ++ '"' :: tail)
      = .found cs (cs.flatMap escape ++ ['"']) tail := by
  induction cs with
  | nil => exact scanContents_close (by decide) tail
  | cons c others ih =>
    rw [List.flatMap_cons, List.append_assoc, scanContents_escape, ih]
    simp [Scan.map, Scan.after]

theorem not_isControl_fourHexDigits :
    ∀ n < 160, (fourHexDigits n).all (fun c => !isControl c) = true := by
  decide +kernel

/-- What is written for a character is no control. -/
theorem not_isControl_of_mem_escape {c d : Char} (member : d ∈ escape c) : isControl d = false := by
  have plainEscape (letter : Char) (plain : isControl letter = false) (member : d ∈ ['\\', letter]) :
      isControl d = false := by
    rcases List.mem_cons.mp member with rfl | member
    · decide
    · rwa [List.mem_singleton.mp member]
  have escaped := escaped_escape c
  generalize escape c = spelling at escaped member
  cases escaped with
  | quote | backslash | lineFeed | carriageReturn | tab => exact plainEscape _ (by decide) member
  | control control =>
    have digits := not_isControl_fourHexDigits c.toNat (toNat_lt_of_isControl control)
    rcases List.mem_cons.mp member with rfl | member
    · decide
    rcases List.mem_cons.mp member with rfl | member
    · decide
    · simpa using List.all_eq_true.mp digits d member
  | plain _ _ notControl => rwa [List.mem_singleton.mp member]

/-- A quoted text is one line without controls. -/
theorem not_isControl_of_mem_quote {text : String} {c : Char} (member : c ∈ (quote text).toList) :
    isControl c = false := by
  rw [quote, String.toList_ofList, quoteChars, List.mem_cons, List.mem_append, List.mem_singleton]
    at member
  rcases member with rfl | member | rfl
  · decide
  · obtain ⟨d, -, member⟩ := List.mem_flatMap.mp member
    exact not_isControl_of_mem_escape member
  · decide

/-- A quoted text is scanned back, whatever follows. -/
theorem scan_quote (text : String) (tail : List Char) :
    scan ((quote text).toList ++ tail) = .found (.string text) (quote text).toList tail := by
  have contents := scanContents_quoted text.toList tail
  simp only [quote, String.toList_ofList, quoteChars, List.cons_append, List.append_assoc,
    List.nil_append, scan, true_or, if_true, contents]
  simp [Scan.map, Scan.after]

end Literal

end ApiDef.Text
