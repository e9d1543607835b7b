import ApiDef.Json.Token
import ApiDef.Proofs.Model.Reread
import ApiDef.Proofs.Reader.Words
set_option autoImplicit false

/-!
# JSON string literals

The string literals of JSON (RFC 8259, section 7), as a grammar of their own: each character of a
literal spells a code, and the codes denote characters. A code is a code point or one half of a
surrogate pair. The JSON reader takes every such literal; a literal in a document may not spell halves.
-/

namespace ApiDef.Json

open Text

/-- The hexadecimal digits in either case, with their values. -/
def hexDigits : List (Char × Nat) :=
  "0123456789abcdef".toList.zipIdx ++ "ABCDEF".toList.zipIdx 10

/-- One character of a string literal, as it is spelled, and the code that it stands for. -/
inductive Spells : List Char → Nat → Prop where
  | unescaped {c : Char} : 0x20 ≤ c.toNat → c ≠ '"' → c ≠ '\\' → Spells [c] c.toNat
  | quote : Spells ['\\', '"'] 0x22
  | backslash : Spells ['\\', '\\'] 0x5C
  | slash : Spells ['\\', '/'] 0x2F
  | backspace : Spells ['\\', 'b'] 0x08
  | formFeed : Spells ['\\', 'f'] 0x0C
  | lineFeed : Spells ['\\', 'n'] 0x0A
  | carriageReturn : Spells ['\\', 'r'] 0x0D
  | tab : Spells ['\\', 't'] 0x09
  | hex {a b d e : Char} {w x y z : Nat} : (a, w) ∈ hexDigits → (b, x) ∈ hexDigits →
      (d, y) ∈ hexDigits → (e, z) ∈ hexDigits →
      Spells ['\\', 'u', a, b, d, e] (w * 4096 + x * 256 + y * 16 + z)

/-- What stands between the quotes of a string literal, and the codes that it spells. -/
inductive SpellsAll : List Char → List Nat → Prop where
  | nil : SpellsAll [] []
  | cons {spelling others : List Char} {code : Nat} {codes : List Nat} :
      Spells spelling code → SpellsAll others codes → SpellsAll (spelling ++ others) (code :: codes)

def isSurrogate (code : Nat) : Bool :=
  isHighSurrogate code || isLowSurrogate code

/-- The characters that codes denote. A character outside the basic plane may be two halves. -/
inductive Denotes : List Nat → List Char → Prop where
  | nil : Denotes [] []
  | scalar {c : Char} {codes : List Nat} {cs : List Char} :
      Denotes codes cs → Denotes (c.toNat :: codes) (c :: cs)
  | pair {high low : Nat} {c : Char} {codes : List Nat} {cs : List Char} :
      isHighSurrogate high = true → isLowSurrogate low = true → c.toNat = pairedCode high low →
      Denotes codes cs → Denotes (high :: low :: codes) (c :: cs)

variable {contents spelling : List Char} {code : Nat} {codes : List Nat} {cs : List Char}

/-!
## Codes
-/

theorem hexValue?_of_mem_hexDigits {c : Char} {value : Nat} (member : (c, value) ∈ hexDigits) :
    Literal.hexValue? c = some value ∧ value < 16 := by
  have each : ∀ digit ∈ hexDigits, Literal.hexValue? digit.1 = some digit.2 ∧ digit.2 < 16 := by
    decide
  exact each (c, value) member

theorem hexNumber?_of_mem_hexDigits {a b d e : Char} {w x y z : Nat} (first : (a, w) ∈ hexDigits)
    (second : (b, x) ∈ hexDigits) (third : (d, y) ∈ hexDigits) (fourth : (e, z) ∈ hexDigits) :
    Literal.hexNumber? [a, b, d, e] = some (w * 4096 + x * 256 + y * 16 + z) := by
  simp only [Literal.hexNumber?, List.foldl_cons, List.foldl_nil,
    (hexValue?_of_mem_hexDigits first).1, (hexValue?_of_mem_hexDigits second).1,
    (hexValue?_of_mem_hexDigits third).1, (hexValue?_of_mem_hexDigits fourth).1]
  simp
  omega

theorem toNat_lt (c : Char) : c.toNat < 0x110000 := by
  have valid : c.toNat.isValidChar := c.valid
  unfold Nat.isValidChar at valid
  omega

theorem Spells.code_lt (spells : Spells spelling code) : code < 0x110000 := by
  cases spells with
  | @unescaped c => exact toNat_lt c
  | hex first second third fourth =>
    have := (hexValue?_of_mem_hexDigits first).2
    have := (hexValue?_of_mem_hexDigits second).2
    have := (hexValue?_of_mem_hexDigits third).2
    have := (hexValue?_of_mem_hexDigits fourth).2
    omega
  | _ => decide

/-- Up to the last code point, only the surrogates are no characters. -/
theorem scalar?_eq (below : code < 0x110000) :
    Literal.scalar? code = if isSurrogate code then none else some (Char.ofNat code) := by
  have valid : code.isValidChar ↔ ¬isSurrogate code = true := by
    simp only [Nat.isValidChar, isSurrogate, isHighSurrogate, isLowSurrogate, Bool.or_eq_true,
      Bool.and_eq_true, decide_eq_true_eq]
    omega
  unfold Literal.scalar?
  by_cases surrogate : isSurrogate code = true
  · rw [if_pos surrogate, if_neg fun isValid => valid.mp isValid surrogate]
  · rw [if_neg surrogate, if_pos (valid.mpr surrogate)]

theorem isSurrogate_toNat (c : Char) : isSurrogate c.toNat = false := by
  have scalar := scalar?_eq (toNat_lt c)
  rw [Literal.scalar?_toNat] at scalar
  cases surrogate : isSurrogate c.toNat with
  | false => rfl
  | true =>
    rw [if_pos surrogate] at scalar
    cases scalar

theorem denotes_map_toNat (cs : List Char) : Denotes (cs.map Char.toNat) cs := by
  induction cs with
  | nil => exact .nil
  | cons c others ih => exact .scalar ih

/-- Codes without surrogates are the code points of the characters that they denote. -/
theorem Denotes.eq_map_toNat (denotes : Denotes codes cs)
    (plain : ∀ code ∈ codes, isSurrogate code = false) : codes = cs.map Char.toNat := by
  induction denotes with
  | nil => rfl
  | scalar _ ih =>
    rw [List.map_cons, ← ih (List.forall_mem_cons.mp plain).2]
  | pair high =>
    have notSurrogate := (List.forall_mem_cons.mp plain).1
    rw [isSurrogate, high] at notSurrogate
    cases notSurrogate

/-!
## The reader of JSON
-/

theorem codes?_spells (spells : Spells spelling code) (others : List Char) :
    codes? (spelling ++ others)
      = (codes? others).map fun (codes, after) => (code :: codes, after) := by
  cases spells with
  | unescaped printed notQuote notEscape =>
    rw [List.singleton_append, codes?.eq_def]
    simp [notQuote, notEscape, Nat.not_lt.mpr printed]
  | hex first second third fourth =>
    have digits := hexNumber?_of_mem_hexDigits first second third fourth
    simp [codes?, digits]
  | _ => simp [codes?, shortEscape?]

theorem charsOfCodes?_of_denotes (denotes : Denotes codes cs) : charsOfCodes? codes = some cs := by
  induction denotes with
  | nil => rfl
  | scalar _ ih =>
    rw [charsOfCodes?.eq_def]
    simp only [Literal.scalar?_toNat, ih, Option.map_some]
  | @pair high low c codes cs isHigh isLow paired _ ih =>
    have below : high < 0x110000 := by
      simp only [isHighSurrogate, Bool.and_eq_true, decide_eq_true_eq] at isHigh
      omega
    have half : Literal.scalar? high = none := by
      rw [scalar?_eq below, isSurrogate, isHigh]
      rfl
    rw [charsOfCodes?.eq_def]
    simp only [half, isHigh, isLow, Bool.and_true, if_true, ih, Option.map_some]
    rw [← paired, Char.ofNat_toNat]

/-- The reader of JSON takes every string literal and finds the text that it denotes. -/
theorem token?_stringLiteral {text : String} (spelled : SpellsAll contents codes)
    (denoted : Denotes codes text.toList) (tail : List Char) :
    token? ('"' :: (contents ++ '"' :: tail)) = some (.string (some text), tail) := by
  have scanned : codes? (contents ++ '"' :: tail) = some (codes, tail) := by
    clear denoted
    induction spelled with
    | nil =>
      rw [List.nil_append, codes?.eq_def]
      rfl
    | cons spells _ ih => rw [List.append_assoc, codes?_spells spells, ih, Option.map_some]
  simp [token?, scanned, charsOfCodes?_of_denotes denoted]

/-!
## The scanner of literals
-/

/-- A surrogate ends the scan right behind its escape. -/
theorem scanContents_spells (spells : Spells spelling code) (others : List Char) :
    Literal.scanContents '"' (spelling ++ others)
      = if isSurrogate code then .failed .badEscape spelling others
        else ((Literal.scanContents '"' others).map (Char.ofNat code :: ·)).after spelling := by
  have notQuote : '\\' ≠ '"' := by decide
  cases spells with
  | @unescaped c printed notClosing notEscape =>
    have notLineFeed : c ≠ '\n' := by
      rintro rfl
      exact absurd printed (by decide)
    rw [isSurrogate_toNat, if_neg Bool.false_ne_true, Char.ofNat_toNat]
    exact Literal.scanContents_plain notLineFeed notClosing notEscape others
  | @hex a b d e w x y z first second third fourth =>
    have digits := hexNumber?_of_mem_hexDigits first second third fourth
    have scalar := scalar?_eq (Spells.hex first second third fourth).code_lt
    generalize w * 4096 + x * 256 + y * 16 + z = code at digits scalar ⊢
    by_cases surrogate : isSurrogate code = true
    · rw [if_pos surrogate] at scalar ⊢
      have allHex : Literal.leadingHex [a, b, d, e] = [a, b, d, e] := by
        simp [Literal.leadingHex, (hexValue?_of_mem_hexDigits first).1,
          (hexValue?_of_mem_hexDigits second).1, (hexValue?_of_mem_hexDigits third).1,
          (hexValue?_of_mem_hexDigits fourth).1]
      simp [Literal.scanContents, digits, scalar, allHex]
    · rw [if_neg surrogate] at scalar ⊢
      exact Literal.scanContents_hex notQuote (by rw [digits, Option.bind_some, scalar]) others
  | _ => exact Literal.scanContents_escaped notQuote rfl others

theorem scanContents_of_plain (spelled : SpellsAll contents codes)
    (plain : ∀ code ∈ codes, isSurrogate code = false) (tail : List Char) :
    Literal.scanContents '"' (contents ++ '"' :: tail)
      = .found (codes.map Char.ofNat) (contents ++ ['"']) tail := by
  induction spelled with
  | nil => exact Literal.scanContents_close (by decide) tail
  | cons spells _ ih =>
    obtain ⟨first, later⟩ := List.forall_mem_cons.mp plain
    rw [List.append_assoc, scanContents_spells spells, first, if_neg Bool.false_ne_true, ih later]
    simp [Literal.Scan.map, Literal.Scan.after]

theorem scanContents_of_surrogate (spelled : SpellsAll contents codes)
    (half : ∃ code ∈ codes, isSurrogate code = true) (tail : List Char) :
    ∃ passed rest, Literal.scanContents '"' (contents ++ '"' :: tail)
      = .failed .badEscape passed rest := by
  induction spelled with
  | nil =>
    obtain ⟨code, member, -⟩ := half
    exact absurd member List.not_mem_nil
  | @cons spelling others code codes spells _ ih =>
    rw [List.append_assoc, scanContents_spells spells]
    cases first : isSurrogate code with
    | true => exact ⟨spelling, others ++ '"' :: tail, rfl⟩
    | false =>
      have later : ∃ code ∈ codes, isSurrogate code = true := by
        obtain ⟨found, member, surrogate⟩ := half
        rcases List.mem_cons.mp member with rfl | member
        · rw [first] at surrogate
          cases surrogate
        · exact ⟨found, member, surrogate⟩
      obtain ⟨passed, rest, failed⟩ := ih later
      rw [failed]
      exact ⟨spelling ++ passed, rest, rfl⟩

/-- A string literal of JSON is scanned to its end as the text that it denotes, whatever follows,
unless it spells a surrogate: then its escape is no escape. -/
theorem scan_stringLiteral {text : String} (spelled : SpellsAll contents codes)
    (denoted : Denotes codes text.toList) (tail : List Char) :
    ((∀ code ∈ codes, isSurrogate code = false) →
        Literal.scan ('"' :: (contents ++ '"' :: tail))
          = .found (.string text) ('"' :: (contents ++ ['"'])) tail)
      ∧ ((∃ code ∈ codes, isSurrogate code = true) →
        ∃ passed rest, Literal.scan ('"' :: (contents ++ '"' :: tail))
          = .failed .badEscape passed rest) := by
  rw [Literal.scan, if_pos (.inl rfl)]
  constructor
  · intro plain
    have chars : codes.map Char.ofNat = text.toList := by
      rw [denoted.eq_map_toNat plain, List.map_map]
      exact List.map_id'' Char.ofNat_toNat _
    rw [scanContents_of_plain spelled plain, chars]
    simp [Literal.Scan.map, Literal.Scan.after]
  · intro half
    obtain ⟨passed, rest, failed⟩ := scanContents_of_surrogate spelled half tail
    rw [failed]
    exact ⟨['"'] ++ passed, rest, rfl⟩

theorem scan_stringLiteral_accented :
    SpellsAll "a\\u00E9\\n".toList [0x61, 0xE9, 0x0A]
      ∧ Denotes [0x61, 0xE9, 0x0A] "aé\n".toList
      ∧ (∀ code ∈ [0x61, 0xE9, 0x0A], isSurrogate code = false)
      ∧ Literal.scan "\"a\\u00E9\\n\") x".toList
        = .found (.string "aé\n") "\"a\\u00E9\\n\"".toList ") x".toList := by
  have letter : Spells ['a'] 0x61 := .unescaped (by decide) (by decide) (by decide)
  have accented : Spells ['\\', 'u', '0', '0', 'E', '9'] 0xE9 :=
    have zero : ('0', 0) ∈ hexDigits := by decide
    have fourteen : ('E', 14) ∈ hexDigits := by decide
    have nine : ('9', 9) ∈ hexDigits := by decide
    .hex zero zero fourteen nine
  have spelled : SpellsAll "a\\u00E9\\n".toList [0x61, 0xE9, 0x0A] :=
    SpellsAll.cons letter (.cons accented (.cons .lineFeed .nil))
  have denoted : Denotes [0x61, 0xE9, 0x0A] "aé\n".toList := by
    have chars : "aé\n".toList = ['a', 'é', '\n'] := by decide
    rw [chars]
    exact denotes_map_toNat ['a', 'é', '\n']
  have plain : ∀ code ∈ [0x61, 0xE9, 0x0A], isSurrogate code = false := by decide
  exact ⟨spelled, denoted, plain, (scan_stringLiteral spelled denoted ") x".toList).1 plain⟩

/-- The escapes of a surrogate pair are a string literal of JSON, but they are not scanned. -/
theorem not_scan_surrogatePair :
    SpellsAll "\\ud83d\\ude00".toList [0xD83D, 0xDE00]
      ∧ Denotes [0xD83D, 0xDE00] "😀".toList
      ∧ Literal.scan "\"\\ud83d\\ude00\"".toList
        = .failed .badEscape "\"\\ud83d".toList "\\ude00\"".toList := by
  have zero : ('0', 0) ∈ hexDigits := by decide
  have eight : ('8', 8) ∈ hexDigits := by decide
  have three : ('3', 3) ∈ hexDigits := by decide
  have thirteen : ('d', 13) ∈ hexDigits := by decide
  have fourteen : ('e', 14) ∈ hexDigits := by decide
  have high : Spells ['\\', 'u', 'd', '8', '3', 'd'] 0xD83D := .hex thirteen eight three thirteen
  have low : Spells ['\\', 'u', 'd', 'e', '0', '0'] 0xDE00 := .hex thirteen fourteen zero zero
  have denoted : Denotes [0xD83D, 0xDE00] "😀".toList :=
    Denotes.pair (by decide) (by decide) (by decide) .nil
  refine ⟨SpellsAll.cons high (.cons low .nil), denoted, ?_⟩
  have half := scanContents_spells high "\\ude00\"".toList
  have whole : "\"\\ud83d\\ude00\"".toList
      = '"' :: (['\\', 'u', 'd', '8', '3', 'd'] ++ "\\ude00\"".toList) := by decide
  rw [if_pos (by decide)] at half
  rw [whole, Literal.scan, if_pos (.inl rfl), half]
  rfl

/-!
## Quoted texts
-/

/-- What is written for a character in a quoted text spells that character. -/
theorem spells_escape (c : Char) : Spells (Text.escape c) c.toNat := by
  have escaped := Literal.escaped_escape c
  generalize Text.escape c = spelling at escaped ⊢
  cases escaped with
  | quote => exact .quote
  | backslash => exact .backslash
  | lineFeed => exact .lineFeed
  | carriageReturn => exact .carriageReturn
  | tab => exact .tab
  | control control =>
    have digit : ∀ n < 16, (Nat.digitChar n, n) ∈ hexDigits := by decide
    have below := Literal.toNat_lt_of_isControl control
    have value : c.toNat / 4096 % 16 * 4096 + c.toNat / 256 % 16 * 256 + c.toNat / 16 % 16 * 16
        + c.toNat % 16 = c.toNat := by omega
    have spelled := Spells.hex (digit (c.toNat / 4096 % 16) (by omega))
      (digit (c.toNat / 256 % 16) (by omega)) (digit (c.toNat / 16 % 16) (by omega))
      (digit (c.toNat % 16) (by omega))
    rwa [value] at spelled
  | plain notQuote notEscape notControl =>
    have printed : 0x20 ≤ c.toNat := by
      simp only [isControl, Bool.or_eq_false_iff, decide_eq_false_iff_not] at notControl
      omega
    exact .unescaped printed notQuote notEscape

/-- A quoted text is a string literal of JSON for that text. -/
theorem token?_quote (text : String) (tail : List Char) :
    token? ((quote text).toList ++ tail) = some (.string (some text), tail) := by
  have spelled (cs : List Char) : SpellsAll (cs.flatMap Text.escape) (cs.map Char.toNat) := by
    induction cs with
    | nil => exact .nil
    | cons c others ih => exact .cons (spells_escape c) ih
  have read := token?_stringLiteral (spelled text.toList) (denotes_map_toNat text.toList) tail
  rwa [quote, String.toList_ofList, quoteChars, List.cons_append, List.append_assoc,
    List.singleton_append]

end ApiDef.Json

namespace ApiDef

open Text

theorem Text.Position.advanceOver_of_not_mem {passed : List Char} (oneLine : '\n' ∉ passed)
    (place : Position) :
    place.advanceOver passed = ⟨place.line, place.column + passed.length⟩ := by
  induction passed generalizing place with
  | nil => rfl
  | cons c others ih =>
    rw [List.mem_cons, not_or] at oneLine
    rw [advanceOver_cons, ih oneLine.2, advance, if_neg (Ne.symm oneLine.1), List.length_cons,
      Nat.add_assoc, Nat.add_comm 1]

/-- A quoted text in front of anything is read back, up to its closing quote and on the same line,
and it has no controls and no line breaks. -/
theorem Reader.literal_undoes_quote (text : String) (tail : List Char) (place : Position) :
    literal.run ⟨(quote text).toList ++ tail, place⟩
        = .done ⟨.string text, quote text⟩
          ⟨tail, ⟨place.line, place.column + (quote text).length⟩⟩ []
      ∧ (quote text).toList.all (fun c => !isControl c) = true
      ∧ lines (quote text) = [quote text] := by
  have noControl : ∀ c ∈ (quote text).toList, isControl c = false :=
    fun _ member => Literal.not_isControl_of_mem_quote member
  have oneLine : '\n' ∉ (quote text).toList := by
    intro member
    exact absurd (noControl '\n' member) (by decide)
  have ran := run_literal_quote (Eq.refl (Cursor.rest ⟨(quote text).toList ++ tail, place⟩))
  rw [Cursor.pass, Position.advanceOver_of_not_mem oneLine, String.length_toList] at ran
  refine ⟨ran, ?_, ?_⟩
  · simpa using noControl
  · have single := lines_intercalate (List.cons_ne_nil (quote text) []) (by simpa using oneLine)
    rwa [String.intercalate_singleton] at single

end ApiDef
