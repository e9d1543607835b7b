import ApiDef.Proofs.Model.WellFormed
import ApiDef.Proofs.Reader.Yields
import ApiDef.Proofs.Text.Literal
set_option autoImplicit false

/-!
# Reading words, gaps and lists back

Words and literals are read up to where they end, gaps up to where something solid stands, and lists
item by item.
-/

namespace ApiDef.Reader

open Text

/-!
## Gaps
-/

/-- Neither a blank nor a comment stands at the start of a text. -/
def Solid (tail : List Char) : Prop :=
  Stops isBlank tail ∧ startsComment tail = false

theorem solid_nil : Solid [] :=
  ⟨stops_nil isBlank, rfl⟩

theorem solid_cons {c : Char} (plain : isBlank c = false ∧ c ≠ '#' ∧ c ≠ '/')
    (others : List Char) : Solid (c :: others) := by
  obtain ⟨notBlank, notHash, notSlash⟩ := plain
  refine ⟨stops_cons notBlank others, ?_⟩
  unfold startsComment
  split
  next same => exact absurd (List.cons.inj same).1 notHash
  next same => exact absurd (List.cons.inj same).1 notSlash
  next => rfl

theorem toNat_of_isUpper {c : Char} (upper : c.isUpper = true) : 65 ≤ c.toNat ∧ c.toNat ≤ 90 := by
  obtain ⟨above, below⟩ : 'A'.val ≤ c.val ∧ c.val ≤ 'Z'.val := of_decide_eq_true upper
  exact ⟨above, below⟩

theorem toNat_of_isLower {c : Char} (lower : c.isLower = true) : 97 ≤ c.toNat ∧ c.toNat ≤ 122 := by
  obtain ⟨above, below⟩ := Bool.and_eq_true_iff.mp lower
  exact ⟨of_decide_eq_true above, of_decide_eq_true below⟩

theorem toNat_of_isIdentifierChar {c : Char} (inside : isIdentifierChar c = true) :
    48 ≤ c.toNat ∧ c.toNat ≤ 122 := by
  simp only [isIdentifierChar, Char.isAlphanum, Bool.or_eq_true, decide_eq_true_eq] at inside
  rcases inside with (letter | digit) | underscore
  · rcases Bool.or_eq_true_iff.mp letter with upper | lower
    · have bounds := toNat_of_isUpper upper
      omega
    · have bounds := toNat_of_isLower lower
      omega
  · have bounds : 48 ≤ c.toNat ∧ c.toNat ≤ 57 := Char.isDigit_iff_toNat.mp digit
    omega
  · subst underscore
    decide

theorem toNat_of_isBlank {c : Char} (blank : isBlank c = true) :
    c.toNat ≤ 32 ∨ 133 ≤ c.toNat := by
  simp only [isBlank, blankRanges, List.any_cons, List.any_nil, Bool.or_eq_true, Bool.and_eq_true,
    decide_eq_true_eq, Bool.false_eq_true, or_false] at blank
  omega

theorem not_isBlank_of_isIdentifierChar {c : Char} (inside : isIdentifierChar c = true) :
    isBlank c = false := by
  cases blank : isBlank c with
  | false => rfl
  | true =>
    have bounds := toNat_of_isIdentifierChar inside
    have outside := toNat_of_isBlank blank
    omega

theorem head?_cons_ne {first c : Char} (different : first ≠ c) (others : List Char) :
    (first :: others).head? ≠ some c :=
  fun same => different (Option.some.inj same)

/-- Blanks end a word. -/
theorem stops_blanks {blanks : List Char} (nonempty : blanks ≠ [])
    (allBlank : ∀ c ∈ blanks, isBlank c = true) (tail : List Char) :
    Stops isIdentifierChar (blanks ++ tail) := by
  cases blanks with
  | nil => exact absurd rfl nonempty
  | cons c others =>
    refine stops_cons ?_ _
    cases inside : isIdentifierChar c with
    | false => rfl
    | true =>
      have blank := allBlank c List.mem_cons_self
      rw [not_isBlank_of_isIdentifierChar inside] at blank
      cases blank

theorem head?_blanks_ne {blanks : List Char} (nonempty : blanks ≠ [])
    (allBlank : ∀ c ∈ blanks, isBlank c = true) {c : Char} (notBlank : isBlank c = false)
    (tail : List Char) : (blanks ++ tail).head? ≠ some c := by
  cases blanks with
  | nil => exact absurd rfl nonempty
  | cons first others =>
    intro same
    have blank := allBlank first List.mem_cons_self
    rw [Option.some.inj same, notBlank] at blank
    cases blank

/-- A word is solid. -/
theorem solid_of_isIdentifierChar {c : Char} (inside : isIdentifierChar c = true)
    (others : List Char) : Solid (c :: others) := by
  refine solid_cons ⟨not_isBlank_of_isIdentifierChar inside, ?_, ?_⟩ others
  · intro same
    rw [same] at inside
    exact absurd inside (by decide)
  · intro same
    rw [same] at inside
    exact absurd inside (by decide)

theorem run_skipBlanks {start : Cursor} {blanks tail : List Char} (rest : start.rest = blanks ++ tail)
    (allBlank : ∀ c ∈ blanks, isBlank c = true) (stops : Stops isBlank tail) :
    skipBlanks.run start = .done () (start.pass blanks tail) [] := by
  have taken : (takeWhile isBlank).run start = .done blanks (start.pass blanks tail) [] := by
    simp only [takeWhile, rest, takeWhile_of_stops allBlank stops, dropWhile_of_stops allBlank stops]
  rw [skipBlanks, run_andThen taken]
  rfl

theorem run_skipTrivia {start : Cursor} {blanks tail : List Char} (rest : start.rest = blanks ++ tail)
    (allBlank : ∀ c ∈ blanks, isBlank c = true) (solid : Solid tail) :
    skipTrivia.run start = .done () (start.pass blanks tail) [] := by
  have noComment : skipComment.run (start.pass blanks tail) = .done false (start.pass blanks tail) [] := by
    simp [skipComment, Cursor.pass, solid.2]
  have round : (triviaRound ()).run start = .done (.stop []) (start.pass blanks tail) [] := by
    rw [triviaRound, run_andThen (run_skipBlanks rest allBlank solid.1), run_andThen noComment]
    rfl
  have loop : (rounds triviaRound advances_triviaRound ()).run start
      = .done [] (start.pass blanks tail) [] := by
    rw [run_rounds, round]
  rw [skipTrivia, run_andThen loop]
  rfl

/-- A reader that skips at least blanks, and nothing solid. -/
def SkipsGaps (gap : Reader Unit) : Prop :=
  ∀ {start : Cursor} {blanks tail : List Char}, start.rest = blanks ++ tail →
    (∀ c ∈ blanks, isBlank c = true) → Solid tail → gap.run start = .done () (start.pass blanks tail) []

theorem skipsGaps_skipBlanks : SkipsGaps skipBlanks :=
  fun rest allBlank solid => run_skipBlanks rest allBlank solid.1

theorem skipsGaps_skipTrivia : SkipsGaps skipTrivia :=
  fun rest allBlank solid => run_skipTrivia rest allBlank solid

theorem SkipsGaps.nothing {gap : Reader Unit} (skips : SkipsGaps gap) {start : Cursor} {tail : List Char}
    (rest : start.rest = tail) (solid : Solid tail) :
    gap.run start = .done () (start.pass [] tail) [] :=
  skips rest blank_nil solid

theorem SkipsGaps.space {gap : Reader Unit} (skips : SkipsGaps gap) {start : Cursor} {tail : List Char}
    (rest : start.rest = ' ' :: tail) (solid : Solid tail) :
    gap.run start = .done () (start.pass [' '] tail) [] :=
  skips rest blank_space solid

/-!
## Words
-/

theorem run_identifier? {start : Cursor} {name : String} {tail : List Char}
    (rest : start.rest = name.toList ++ tail) (valid : isIdentifier name = true)
    (stops : Stops isIdentifierChar tail) :
    identifier?.run start = .done (some name) (start.pass name.toList tail) [] := by
  obtain ⟨first, others, same, starts, inside⟩ := exists_of_isIdentifier valid
  have begins : ((name.toList ++ tail).head?.map isIdentifierStart).getD false = true := by
    rw [same]
    exact starts
  simp only [identifier?, rest, begins, if_true, takeWhile_of_stops inside stops,
    dropWhile_of_stops inside stops, String.ofList_toList]

theorem run_identifier {also : List Expected} {start : Cursor} {name : String} {tail : List Char}
    (rest : start.rest = name.toList ++ tail) (valid : isIdentifier name = true)
    (stops : Stops isIdentifierChar tail) :
    (identifier also).run start = .done name (start.pass name.toList tail) [] := by
  rw [identifier, run_andThen (run_identifier? rest valid stops)]
  rfl

/-- A name stands at the start of a text. -/
theorem isIdentifier_append {name : String} (valid : isIdentifier name = true) (tail : List Char) :
    ∃ first others, name.toList ++ tail = first :: others ∧ isIdentifierStart first = true := by
  obtain ⟨first, others, same, starts, -⟩ := exists_of_isIdentifier valid
  exact ⟨first, others ++ tail, by rw [same, List.cons_append], starts⟩

theorem head?_identifier_ne {name : String} (valid : isIdentifier name = true) {c : Char}
    (other : isIdentifierStart c = false) (tail : List Char) :
    (name.toList ++ tail).head? ≠ some c := by
  obtain ⟨first, others, same, starts⟩ := isIdentifier_append valid tail
  rw [same, List.head?_cons]
  intro equal
  rw [Option.some.inj equal, other] at starts
  cases starts

theorem solid_identifier {name : String} (valid : isIdentifier name = true) (tail : List Char) :
    Solid (name.toList ++ tail) := by
  obtain ⟨first, others, same, starts⟩ := isIdentifier_append valid tail
  rw [same]
  exact solid_of_isIdentifierChar (isIdentifierChar_of_isIdentifierStart starts) others

/-!
## Literals
-/

theorem run_literal {start : Cursor} {value : Literal} {passed tail : List Char}
    (scanned : Literal.scan start.rest = .found value passed tail) :
    literal.run start = .done ⟨value, String.ofList passed⟩ (start.pass passed tail) [] := by
  simp [literal, scanned]

/-- What starts a literal is solid. -/
theorem solid_of_scan {cs passed rest : List Char} {value : Literal}
    (scanned : Literal.scan cs = .found value passed rest) : Solid cs := by
  cases cs with
  | nil => exact solid_nil
  | cons c others =>
    simp only [Literal.scan] at scanned
    split at scanned
    next quoted =>
      rcases quoted with same | same
      · subst same
        exact solid_cons (by decide) others
      · subst same
        exact solid_cons (by decide) others
    next =>
      split at scanned
      next number =>
        rcases number with same | digit
        · subst same
          exact solid_cons (by decide) others
        · exact solid_of_isIdentifierChar (isIdentifierChar_of_isDigit digit) others
      next =>
        obtain ⟨word, valid, whole⟩ : ∃ word, isIdentifier word = true
            ∧ ∃ after, c :: others = word.toList ++ after := by
          unfold Literal.scanWord at scanned
          repeat' split at scanned
          next same => exact ⟨"true", by decide, _, eq_append_of_afterWord? same⟩
          next same => exact ⟨"false", by decide, _, eq_append_of_afterWord? same⟩
          next same => exact ⟨"null", by decide, _, eq_append_of_afterWord? same⟩
          next => cases scanned
        obtain ⟨after, same⟩ := whole
        rw [same]
        exact solid_identifier valid after

theorem run_literal_quote {start : Cursor} {text : String} {tail : List Char}
    (rest : start.rest = (quote text).toList ++ tail) :
    literal.run start
      = .done ⟨.string text, quote text⟩ (start.pass (quote text).toList tail) [] := by
  have ran := run_literal (rest ▸ Literal.scan_quote text tail)
  rwa [String.ofList_toList] at ran

theorem solid_quote (text : String) (tail : List Char) : Solid ((quote text).toList ++ tail) :=
  solid_of_scan (Literal.scan_quote text tail)

/-- A literal that is a text of its own is read back in front of whatever cannot go on with it. -/
theorem exists_scan_of_isLiteral {text : String} (valid : isLiteral text = true) {tail : List Char}
    (delimits : Delimits tail) :
    ∃ value, Literal.scan (text.toList ++ tail) = .found value text.toList tail := by
  unfold isLiteral at valid
  split at valid
  next value passed scanned =>
    have whole := Literal.whole_scan text.toList
    rw [scanned, Literal.Scan.whole_found, List.append_nil] at whole
    subst whole
    exact ⟨value, Literal.scan_passed scanned delimits⟩
  next => cases valid

/-!
## Lists
-/

/-- Items with commas between them, in brackets; no items need no brackets. -/
def bracketed {ι : Type} (opening closing : Char) (text : ι → List Char) : List ι → List Char
  | [] => []
  | first :: others =>
    opening :: (text first ++ (others.flatMap (fun x => ',' :: ' ' :: text x) ++ [closing]))

theorem stops_bracketed {ι : Type} {p : Char → Bool} {opening : Char} (stop : p opening = false)
    (closing : Char) (text : ι → List Char) (items : List ι) {tail : List Char} (stops : Stops p tail) :
    Stops p (bracketed opening closing text items ++ tail) := by
  cases items with
  | nil => exact stops
  | cons first others => exact stops_cons stop _

/-- A separator between two texts is one in front of each text but the first. -/
theorem intercalate_cons (separator first : List Char) (others : List (List Char)) :
    separator.intercalate (first :: others)
      = first ++ others.flatMap fun text => separator ++ text := by
  induction others generalizing first with
  | nil => simp
  | cons second others ih =>
    rw [List.intercalate_cons_cons, ih, List.flatMap_cons, List.append_assoc, List.append_assoc]

/-- What may stand behind an item of a list. -/
def EndsItem (close : Char) (tail : List Char) : Prop :=
  ∃ others, tail = ',' :: others ∨ tail = close :: others

theorem solid_of_endsItem {close : Char} (closeSolid : ∀ tail, Solid (close :: tail)) {tail : List Char}
    (ends : EndsItem close tail) : Solid tail := by
  obtain ⟨others, same | same⟩ := ends
  · rw [same]
    exact solid_cons (by decide) others
  · rw [same]
    exact closeSolid others

section

variable {α ι : Type} {gap : Reader Unit} {item : Advancing α} {close : Char} {view : α → ι}
  {text : ι → List Char} {fits : ι → Prop}

/-- An item is read back from its text; `view` is what the text tells about the value. -/
def ReadsItem (item : Advancing α) (close : Char) (view : α → ι) (text : ι → List Char)
    (fits : ι → Prop) (x : ι) : Prop :=
  (∀ tail, Solid (text x ++ tail)) ∧ ∀ start tail, start.rest = text x ++ tail → EndsItem close tail →
    item.toReader.Yields start (fits x) fun value after => view value = x ∧ after.rest = tail

/-- Items with commas between them are read back one by one. -/
theorem yields_separated (skips : SkipsGaps gap) (closeSolid : ∀ tail, Solid (close :: tail))
    (notComma : close ≠ ',') {first : ι} {others : List ι}
    (items : ∀ x ∈ first :: others, ReadsItem item close view text fits x) {start : Cursor}
    {blanks tail : List Char} (allBlank : ∀ c ∈ blanks, isBlank c = true)
    (rest : start.rest
      = blanks ++ (text first ++ (others.flatMap (fun x => ',' :: ' ' :: text x) ++ close :: tail))) :
    (separated gap item close).Yields start (∀ x ∈ first :: others, fits x) fun values after =>
      values.map view = first :: others ∧ after.rest = tail := by
  induction others generalizing first start blanks with
  | nil =>
    obtain ⟨solid, reads⟩ := items first List.mem_cons_self
    have ends : EndsItem close (close :: tail) := ⟨tail, .inr rfl⟩
    refine (yields_rounds_stop ?_).of_iff List.forall_mem_singleton.symm
    refine yields_after (skips rest allBlank (solid _)) ?_
    refine (reads _ _ rfl ends).finally fun value after got => ?_
    obtain ⟨same, afterRest⟩ := got
    refine yields_after (skips.nothing afterRest (closeSolid tail)) ?_
    refine yields_after (run_eat rfl) ?_
    exact yields_pure ⟨[value], rfl, by rw [List.map_singleton, same], rfl⟩
  | cons second others ih =>
    obtain ⟨solid, reads⟩ := items first List.mem_cons_self
    have ends : EndsItem close (',' :: ' ' :: (text second
        ++ (others.flatMap (fun x => ',' :: ' ' :: text x) ++ close :: tail))) := ⟨_, .inl rfl⟩
    refine (yields_rounds_next ?_).of_iff List.forall_mem_cons.symm
    refine yields_after (skips rest allBlank (solid _)) ?_
    refine (reads _ _ (by simp [Cursor.pass]) ends).finally fun value after got => ?_
    obtain ⟨same, afterRest⟩ := got
    refine yields_after (skips.nothing afterRest (solid_of_endsItem closeSolid ends)) ?_
    refine yields_after (run_eat_other ?_) ?_
    · intro close
      exact notComma (Option.some.inj close).symm
    refine yields_after (run_eat rfl) ?_
    refine yields_pure ⟨[value], (), rfl, ?_⟩
    refine (ih (fun x member => items x (List.mem_cons_of_mem _ member)) blank_space rfl).mono ?_
    intro values final facts
    refine ⟨?_, facts.2⟩
    rw [List.map_append, List.map_singleton, same, facts.1]
    rfl

end

end ApiDef.Reader
