import ApiDef.Json.Draft
import ApiDef.Json.Value
import ApiDef.Proofs.Text.Literal
set_option autoImplicit false

/-!
# The draft of a written value

In both styles a JSON value is written so that its draft is the value itself: every character of a
text comes back from its escape, and the blanks between tokens do not count.
-/

namespace ApiDef.Json

open Text

/-!
## Numerals
-/

namespace Numeral

/-- The characters that would make a numeral longer. -/
def isContinued (c : Char) : Bool :=
  c.isDigit || c = '.' || c = 'e' || c = 'E'

def ofInt (value : Int) : Numeral :=
  ⟨value < 0, Nat.toDigits 10 value.natAbs, none, none⟩

/-- Only zero is written with a zero in front. -/
theorem toDigits_ne_zero_cons (size : Nat) (second : Char) (others : List Char) :
    Nat.toDigits 10 size ≠ '0' :: second :: others := by
  induction size using Nat.strongRecOn generalizing second others with
  | ind size ih =>
    intro same
    rw [Nat.toDigits_eq_if (by decide)] at same
    split at same
    next => simp at same
    next large =>
      have smaller : size / 10 < size := by omega
      cases digits : Nat.toDigits 10 (size / 10) with
      | nil => exact Nat.toDigits_ne_nil digits
      | cons first rest =>
        rw [digits, List.cons_append] at same
        obtain ⟨rfl, sameRest⟩ := List.cons.inj same
        cases rest with
        | nil =>
          -- The quotient is the single digit zero, so the number would be less than ten.
          have value := Nat.ofDigitChars_ten_toDigits (n := size / 10)
          rw [digits] at value
          have zero : Nat.ofDigitChars 10 ['0'] 0 = 0 := by decide
          omega
        | cons next later => exact ih _ smaller next later digits

theorem digits?_append {digits tail : List Char} (nonempty : digits ≠ [])
    (all : ∀ c ∈ digits, c.isDigit = true) (stops : Stops Char.isDigit tail) :
    digits? (digits ++ tail) = some (digits, tail) := by
  have notEmpty : digits.isEmpty = false := by simpa using nonempty
  simp only [digits?, takeWhile_of_stops all stops, dropWhile_of_stops all stops, notEmpty,
    Bool.false_eq_true, if_false]

theorem unsigned?_toDigits (negative : Bool) (size : Nat) {tail : List Char}
    (stops : Stops isContinued tail) :
    unsigned? negative (Nat.toDigits 10 size ++ tail)
      = some (⟨negative, Nat.toDigits 10 size, none, none⟩, tail) := by
  have noDigit : Stops Char.isDigit tail := by
    intro c others same
    have plain := stops c others same
    simp only [isContinued, Bool.or_eq_false_iff] at plain
    exact plain.1.1.1
  have digits := digits?_append (Nat.toDigits_ne_nil (n := size) (b := 10))
    (fun c member => Nat.isDigit_of_mem_toDigits (by decide) (by decide) member) noDigit
  have whole : whole? (Nat.toDigits 10 size ++ tail) = some (Nat.toDigits 10 size, tail) := by
    unfold whole?
    rw [digits]
    split
    next same =>
      simp only [Option.some.injEq, Prod.mk.injEq] at same
      exact absurd same.1 (toDigits_ne_zero_cons size _ _)
    next => rfl
  have fraction : fraction? tail = some (none, tail) := by
    unfold fraction?
    split
    next cs => exact absurd (stops '.' cs rfl) (by decide)
    next => rfl
  have exponent : exponent? tail = some (none, tail) := by
    cases tail with
    | nil => rfl
    | cons c others =>
      have plain := stops c others rfl
      simp only [isContinued, Bool.or_eq_false_iff, decide_eq_false_iff_not] at plain
      simp [exponent?, plain]
  simp only [unsigned?, whole, fraction, exponent, Option.map_some]

theorem head?_toDigits_ne_minus (size : Nat) (tail : List Char) :
    (Nat.toDigits 10 size ++ tail).head? ≠ some '-' := by
  intro same
  cases digits : Nat.toDigits 10 size with
  | nil => exact Nat.toDigits_ne_nil digits
  | cons first others =>
    rw [digits, List.cons_append, List.head?_cons, Option.some.injEq] at same
    have isDigit := Nat.isDigit_of_mem_toDigits (b := 10) (by decide) (by decide)
      (digits ▸ List.mem_cons_self : first ∈ Nat.toDigits 10 size)
    rw [same] at isDigit
    exact absurd isDigit (by decide)

theorem toList_toString (value : Int) :
    (toString value).toList
      = if value < 0 then '-' :: Nat.toDigits 10 value.natAbs else Nat.toDigits 10 value.natAbs := by
  rw [Int.toString_eq_repr, Int.repr_eq_if]
  by_cases negative : value < 0
  · have size : (-value).toNat = value.natAbs := by omega
    rw [if_neg (Int.not_le.mpr negative), if_pos negative, String.toList_append, size,
      Nat.toList_repr]
    rfl
  · have size : value.toNat = value.natAbs := by omega
    rw [if_pos (Int.not_lt.mp negative), if_neg negative, size, Nat.toList_repr]

theorem scan?_toString (value : Int) {tail : List Char} (stops : Stops isContinued tail) :
    scan? ((toString value).toList ++ tail) = some (ofInt value, tail) := by
  rw [toList_toString]
  split
  next negative =>
    rw [List.cons_append, scan?, unsigned?_toDigits _ _ stops, ofInt, decide_eq_true negative]
  next notNegative =>
    have noSign := head?_toDigits_ne_minus value.natAbs tail
    unfold scan?
    split
    next cs same => exact absurd (by rw [same, List.head?_cons]) noSign
    next => rw [unsigned?_toDigits _ _ stops, ofInt, decide_eq_false notNegative]

end Numeral

/-!
## Strings
-/

theorem codes?_short {escaped character : Char} (isShort : shortEscape? escaped = some character)
    (rest : List Char) :
    codes? ('\\' :: escaped :: rest)
      = (codes? rest).map fun (codes, after) => (character.toNat :: codes, after) := by
  have notHex : escaped ≠ 'u' := by
    rintro rfl
    have noShort : shortEscape? 'u' = none := by decide
    rw [noShort] at isShort
    cases isShort
  rw [codes?.eq_def]
  simp only [show ('\\' : Char) ≠ '"' by decide, if_false, if_true]
  split
  next same => exact absurd (List.cons.inj same).1 notHex
  next same =>
    obtain ⟨rfl, rfl⟩ := List.cons.inj same
    rw [isShort]
  next same => cases same

/-- What is written for one character gives its code back. -/
theorem codes?_escape (c : Char) (rest : List Char) :
    codes? (escape c ++ rest) = (codes? rest).map fun (codes, after) => (c.toNat :: codes, after) := by
  unfold escape
  repeat' split
  all_goals try (subst_vars; exact codes?_short (by decide) rest)
  next control =>
    have digits := Literal.hexNumber?_fourHexDigits c.toNat (Nat.lt_trans control (by decide))
    simp only [fourHexDigits] at digits
    simp [fourHexDigits, codes?, digits]
  next notQuote notEscape _ _ _ _ _ printed =>
    rw [List.singleton_append, codes?.eq_def]
    simp only [notQuote, notEscape, printed, if_false]

theorem codes?_flatMap_escape (cs tail : List Char) :
    codes? (cs.flatMap escape ++ '"' :: tail) = some (cs.map Char.toNat, tail) := by
  induction cs with
  | nil => rw [List.flatMap_nil, List.nil_append, codes?.eq_def]; rfl
  | cons c others ih =>
    rw [List.flatMap_cons, List.append_assoc, codes?_escape, ih]
    rfl

theorem charsOfCodes?_map_toNat (cs : List Char) : charsOfCodes? (cs.map Char.toNat) = some cs := by
  induction cs with
  | nil => rfl
  | cons c others ih =>
    rw [List.map_cons, charsOfCodes?.eq_def]
    simp only [Literal.scalar?_toNat, ih, Option.map_some]

theorem token?_quoted (text : String) (tail : List Char) :
    token? (quoted text ++ tail) = some (.string (some text), tail) := by
  have codes := codes?_flatMap_escape text.toList tail
  simp [quoted, token?, codes, charsOfCodes?_map_toNat]

theorem token?_toString (value : Int) {tail : List Char} (stops : Stops Numeral.isContinued tail) :
    token? ((toString value).toList ++ tail) = some (.number (.ofInt value), tail) := by
  have scanned := Numeral.scan?_toString value stops
  -- The first character is a digit or a minus sign, so no other token starts here.
  have first : ∃ c others, (toString value).toList = c :: others ∧ (c = '-' ∨ c.isDigit = true) := by
    rw [Numeral.toList_toString]
    split
    next => exact ⟨_, _, rfl, .inl rfl⟩
    next =>
      cases digits : Nat.toDigits 10 value.natAbs with
      | nil => exact absurd digits Nat.toDigits_ne_nil
      | cons c others =>
        refine ⟨c, others, rfl, .inr ?_⟩
        exact Nat.isDigit_of_mem_toDigits (b := 10) (by decide) (by decide)
          (digits ▸ List.mem_cons_self : c ∈ Nat.toDigits 10 value.natAbs)
  obtain ⟨c, others, same, start⟩ := first
  rw [same, List.cons_append] at scanned ⊢
  have other : ∀ mark : Char, mark ≠ '-' → mark.isDigit = false → c ≠ mark := by
    rintro mark notMinus notDigit rfl
    rcases start with minus | digit
    · exact notMinus minus
    · rw [notDigit] at digit
      cases digit
  unfold token?
  split
  next same => cases same
  next same => exact absurd (List.cons.inj same).1 (other 'n' (by decide) (by decide))
  next same => exact absurd (List.cons.inj same).1 (other 't' (by decide) (by decide))
  next same => exact absurd (List.cons.inj same).1 (other 'f' (by decide) (by decide))
  next same =>
    obtain ⟨rfl, rfl⟩ := List.cons.inj same
    rw [if_neg (other _ (by decide) (by decide)), if_neg (other _ (by decide) (by decide)),
      if_neg (other _ (by decide) (by decide)), if_neg (other _ (by decide) (by decide)),
      if_neg (other _ (by decide) (by decide)), if_neg (other _ (by decide) (by decide)),
      if_neg (other _ (by decide) (by decide)), scanned]
    rfl

/-!
## Following a text
-/

theorem not_isBlank_of_token? {c : Char} {rest after : List Char} {token : Token}
    (scanned : token? (c :: rest) = some (token, after)) : isBlank c = false := by
  cases blank : isBlank c with
  | false => rfl
  | true =>
    simp only [isBlank, Bool.or_eq_true, decide_eq_true_eq] at blank
    rcases blank with ((rfl | rfl) | rfl) | rfl <;>
      simp [token?, Numeral.scan?, Numeral.unsigned?, Numeral.whole?, Numeral.digits?] at scanned

namespace Draft

/-- What a text comes to that is read from the middle of a value on. -/
def follow (expecting : Expecting) (frames : List Frame) (cs : List Char) : Draft × Bool :=
  let (tokens, complete) := tokens cs
  let (draft, others) := assemble expecting frames tokens
  (draft, others.isEmpty && complete)

/-- What a text comes to behind a token. -/
def resume : Draft ⊕ Expecting × List Frame → List Char → Draft × Bool
  | .inl draft, cs => (draft, (tokens cs).1.isEmpty && (tokens cs).2)
  | .inr (expecting, frames), cs => follow expecting frames cs

theorem follow_token {expecting : Expecting} {frames : List Frame} {cs after : List Char}
    (token : Token) {next : Draft ⊕ Expecting × List Frame}
    (scanned : token? cs = some (token, after)) (stepped : step expecting frames token = some next) :
    follow expecting frames cs = resume next after := by
  cases cs with
  | nil => cases scanned
  | cons c rest =>
    have divided : tokens (c :: rest) = (token :: (tokens after).1, (tokens after).2) := by
      rw [tokens, not_isBlank_of_token? scanned]
      simp only [Bool.false_eq_true, if_false]
      split
      next same =>
        rw [scanned] at same
        cases same
      next same =>
        rw [scanned] at same
        cases same
        rfl
    rw [follow, divided]
    simp only [assemble.eq_def expecting frames (token :: _), stepped]
    rcases next with draft | ⟨further, inner⟩ <;> rfl

theorem follow_next {expecting further : Expecting} {frames inner : List Frame}
    {cs after : List Char} (token : Token) (scanned : token? cs = some (token, after))
    (stepped : step expecting frames token = some (.inr (further, inner))) :
    follow expecting frames cs = follow further inner after :=
  follow_token token scanned stepped

theorem follow_blanks {expecting : Expecting} {frames : List Frame} (blanks : List Char)
    (blank : ∀ c ∈ blanks, isBlank c = true) (cs : List Char) :
    follow expecting frames (blanks ++ cs) = follow expecting frames cs := by
  induction blanks with
  | nil => rfl
  | cons c others ih =>
    obtain ⟨first, rest⟩ := List.forall_mem_cons.mp blank
    rw [← ih rest, follow, follow, List.cons_append, tokens, first]
    rfl

/-!
## The draft of a value
-/

mutual

def ofJson : Json → Draft
  | .null => null
  | .bool value => bool value
  | .number value => number (.ofInt value)
  | .string text => string (some text)
  | .array elements => array (ofElements elements) true
  | .object members => object (ofMembers members) true

def ofElements : List Json → List Draft
  | [] => []
  | element :: others => ofJson element :: ofElements others

def ofMembers : List (String × Json) → List (Option String × Draft)
  | [] => []
  | (key, value) :: others => (some key, ofJson value) :: ofMembers others

end

theorem isBlank_of_mem_lineBreak {style : Style} {depth : Nat} :
    ∀ c ∈ style.lineBreak depth, isBlank c = true := by
  cases style with
  | compact => exact List.forall_mem_nil _
  | pretty =>
    intro c member
    rcases List.mem_cons.mp member with rfl | member
    · rfl
    · rw [List.eq_of_mem_replicate member]
      rfl

theorem stops_lineBreak (style : Style) (depth : Nat) {c : Char} (stop : Numeral.isContinued c = false)
    (tail : List Char) : Stops Numeral.isContinued (style.lineBreak depth ++ c :: tail) := by
  cases style with
  | compact => exact stops_cons stop tail
  | pretty => exact stops_cons (by decide) _

theorem stops_elementChars (style : Style) (depth : Nat) (elements : List Json) (tail : List Char) :
    Stops Numeral.isContinued
      (elementChars style (depth + 1) elements ++ (style.lineBreak depth ++ ']' :: tail)) := by
  cases elements with
  | nil => exact stops_lineBreak style depth (by decide) tail
  | cons element others => exact stops_cons (by decide) _

theorem stops_memberChars (style : Style) (depth : Nat) (members : List (String × Json))
    (tail : List Char) :
    Stops Numeral.isContinued
      (memberChars style (depth + 1) members ++ (style.lineBreak depth ++ '}' :: tail)) := by
  cases members with
  | nil => exact stops_lineBreak style depth (by decide) tail
  | cons member others => exact stops_cons (by decide) _

theorem follow_lineBreak (style : Style) (depth : Nat) (expecting : Expecting) (frames : List Frame)
    (cs : List Char) :
    follow expecting frames (style.lineBreak depth ++ cs) = follow expecting frames cs :=
  follow_blanks _ isBlank_of_mem_lineBreak cs

theorem follow_key (style : Style) {expecting : Expecting}
    (keyed : expecting = .key ∨ expecting = .firstKey) (done : List (Option String × Draft))
    (frames : List Frame) (key : String) (tail : List Char) :
    follow expecting (.members done :: frames) (quoted key ++ (style.separator ++ tail))
      = follow .value (.value done (some key) :: frames) tail := by
  have colon : follow .colon (.value done (some key) :: frames) (style.separator ++ tail)
      = follow .value (.value done (some key) :: frames) tail := by
    cases style with
    | compact => exact follow_next .colon rfl rfl
    | pretty =>
      refine (follow_next .colon rfl rfl).trans ?_
      exact follow_blanks [' '] (List.forall_mem_singleton.mpr rfl) tail
  rw [← colon]
  have scanned := token?_quoted key (style.separator ++ tail)
  rcases keyed with rfl | rfl
  · exact follow_next _ scanned rfl
  · exact follow_next _ scanned rfl

variable (style : Style)

mutual

/-- Where a value may stand, a written value is delivered. -/
theorem follow_chars : (json : Json) → ∀ (depth : Nat) (expecting : Expecting) (frames : List Frame)
    {tail : List Char}, expecting = .value ∨ expecting = .firstElement →
      Stops Numeral.isContinued tail →
      follow expecting frames (json.chars style depth ++ tail)
        = resume (deliver frames (ofJson json)) tail
  | .null, _, _, _, _, starts, _ => by
    rcases starts with rfl | rfl <;> exact follow_token .null rfl rfl
  | .bool true, _, _, _, _, starts, _ => by
    rcases starts with rfl | rfl <;> exact follow_token (.bool true) rfl rfl
  | .bool false, _, _, _, _, starts, _ => by
    rcases starts with rfl | rfl <;> exact follow_token (.bool false) rfl rfl
  | .number value, _, _, _, _, starts, stops => by
    rcases starts with rfl | rfl <;> exact follow_token _ (token?_toString value stops) rfl
  | .string text, _, _, _, _, starts, _ => by
    rcases starts with rfl | rfl <;> exact follow_token _ (token?_quoted text _) rfl
  | .array [], _, _, frames, tail, starts, _ => by
    have closed : follow .firstElement (.elements [] :: frames) (']' :: tail)
        = resume (deliver frames (array [] true)) tail :=
      follow_token .closeArray rfl rfl
    refine Eq.trans ?_ closed
    rcases starts with rfl | rfl <;> exact follow_next .openArray rfl rfl
  | .array (first :: others), depth, _, frames, tail, starts, _ => by
    have firstRead := follow_chars first (depth + 1) .firstElement
      (.elements [] :: frames) (.inr rfl) (stops_elementChars style depth others tail)
    have othersRead := follow_elementChars others depth [ofJson first] frames tail
    rw [← follow_lineBreak style (depth + 1)] at firstRead
    refine Eq.trans ?_ (firstRead.trans othersRead)
    rw [chars]
    simp only [List.cons_append, List.append_assoc, List.nil_append]
    rcases starts with rfl | rfl <;> exact follow_next .openArray rfl rfl
  | .object [], _, _, frames, tail, starts, _ => by
    have closed : follow .firstKey (.members [] :: frames) ('}' :: tail)
        = resume (deliver frames (object [] true)) tail :=
      follow_token .closeObject rfl rfl
    refine Eq.trans ?_ closed
    rcases starts with rfl | rfl <;> exact follow_next .openObject rfl rfl
  | .object ((key, first) :: others), depth, _, frames, tail, starts, _ => by
    have firstRead := follow_chars first (depth + 1) .value
      (.value [] (some key) :: frames) (.inl rfl) (stops_memberChars style depth others tail)
    have othersRead := follow_memberChars others depth [(some key, ofJson first)] frames tail
    rw [← follow_key style (.inr rfl), ← follow_lineBreak style (depth + 1)] at firstRead
    refine Eq.trans ?_ (firstRead.trans othersRead)
    rw [chars]
    simp only [List.cons_append, List.append_assoc, List.nil_append]
    rcases starts with rfl | rfl <;> exact follow_next .openObject rfl rfl

theorem follow_elementChars : (elements : List Json) → ∀ (depth : Nat) (done : List Draft)
    (frames : List Frame) (tail : List Char),
      follow .more (.elements done :: frames)
        (elementChars style (depth + 1) elements ++ (style.lineBreak depth ++ ']' :: tail))
        = resume (deliver frames (array (done.reverse ++ ofElements elements) true)) tail
  | [], depth, done, frames, tail => by
    rw [elementChars, List.nil_append, follow_lineBreak, ofElements,
      List.append_nil]
    exact follow_token .closeArray rfl rfl
  | element :: others, depth, done, frames, tail => by
    have elementRead := follow_chars element (depth + 1) .value
      (.elements done :: frames) (.inl rfl) (stops_elementChars style depth others tail)
    have othersRead := follow_elementChars others depth (ofJson element :: done) frames tail
    rw [List.reverse_cons, List.append_assoc] at othersRead
    rw [← follow_lineBreak style (depth + 1)] at elementRead
    refine Eq.trans ?_ (elementRead.trans othersRead)
    rw [elementChars]
    simp only [List.cons_append, List.append_assoc]
    exact follow_next .comma rfl rfl

theorem follow_memberChars : (members : List (String × Json)) → ∀ (depth : Nat)
    (done : List (Option String × Draft)) (frames : List Frame) (tail : List Char),
      follow .more (.members done :: frames)
        (memberChars style (depth + 1) members ++ (style.lineBreak depth ++ '}' :: tail))
        = resume (deliver frames (object (done.reverse ++ ofMembers members) true)) tail
  | [], depth, done, frames, tail => by
    rw [memberChars, List.nil_append, follow_lineBreak, ofMembers,
      List.append_nil]
    exact follow_token .closeObject rfl rfl
  | (key, value) :: others, depth, done, frames, tail => by
    have valueRead := follow_chars value (depth + 1) .value
      (.value done (some key) :: frames) (.inl rfl) (stops_memberChars style depth others tail)
    have othersRead := follow_memberChars others depth ((some key, ofJson value) :: done) frames tail
    rw [List.reverse_cons, List.append_assoc] at othersRead
    rw [← follow_key style (.inl rfl), ← follow_lineBreak style (depth + 1)] at valueRead
    refine Eq.trans ?_ (valueRead.trans othersRead)
    rw [memberChars]
    simp only [List.cons_append, List.append_assoc]
    exact follow_next .comma rfl rfl

end

/-- The draft of a written value is the value, and nothing follows it. -/
theorem ofText_text (json : Json) : ofText (json.text style) = (ofJson json, true) := by
  have followed := follow_chars style json 0 .value [] (.inl rfl) (stops_nil _)
  have nothing : tokens [] = ([], true) := by rw [tokens]
  rw [List.append_nil, deliver, resume, nothing] at followed
  rw [Json.text, ofText, String.toList_ofList]
  exact followed

end Draft

end ApiDef.Json
