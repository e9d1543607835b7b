import ApiDef.Text.Identifier
import ApiDef.Text.Quoted
set_option autoImplicit false

/-!
# Literals

A literal is a string in single or double quotes, a number, or one of the words `true`, `false` and
`null`. Scanning splits the text into the part that it passed over and the rest, also when it fails:
then the rest begins with the offending character.
-/

namespace ApiDef.Text

/-- A literal value. A number keeps its spelling. -/
inductive Literal where
  | string (contents : String)
  | number (spelling : String)
  | bool (value : Bool)
  | null
deriving DecidableEq, Repr

namespace Literal

/-- The plain text of a literal: the contents of a string, the spelling of anything else. -/
def plain : Literal → String
  | string contents => contents
  | number spelling => spelling
  | bool true => "true"
  | bool false => "false"
  | null => "null"

/-- Why no literal could be read. -/
inductive Fault where
  /-- Nothing like a literal stands here. -/
  | missing
  /-- The line or the text ends before the closing quote. -/
  | unterminated (quote : Char)
  | badEscape
  /-- A digit is required here. -/
  | badNumber
deriving DecidableEq, Repr

/-- The outcome of a scan. In both cases `passed ++ rest` is the text that was scanned. -/
inductive Scan (α : Type) where
  | found (value : α) (passed rest : List Char)
  | failed (fault : Fault) (passed rest : List Char)
deriving Repr

namespace Scan

/-- A scan that went over `before` first. -/
def after {α : Type} (before : List Char) : Scan α → Scan α
  | found value passed rest => found value (before ++ passed) rest
  | failed fault passed rest => failed fault (before ++ passed) rest

def map {α β : Type} (f : α → β) : Scan α → Scan β
  | found value passed rest => found (f value) passed rest
  | failed fault passed rest => failed fault passed rest

def whole {α : Type} : Scan α → List Char
  | found _ passed rest => passed ++ rest
  | failed _ passed rest => passed ++ rest

@[simp] theorem whole_found {α : Type} (value : α) (passed rest : List Char) :
    (found value passed rest).whole = passed ++ rest := rfl

@[simp] theorem whole_failed {α : Type} (fault : Fault) (passed rest : List Char) :
    (failed fault passed rest : Scan α).whole = passed ++ rest := rfl

@[simp] theorem whole_after {α : Type} (before : List Char) (scan : Scan α) :
    (scan.after before).whole = before ++ scan.whole := by
  cases scan <;> simp [after, whole]

@[simp] theorem whole_map {α β : Type} (f : α → β) (scan : Scan α) :
    (scan.map f).whole = scan.whole := by
  cases scan <;> rfl

end Scan

def hexValue? (c : Char) : Option Nat :=
  if c.isDigit then some (c.toNat - '0'.toNat)
  else if 'a' ≤ c ∧ c ≤ 'f' then some (c.toNat - 'a'.toNat + 10)
  else if 'A' ≤ c ∧ c ≤ 'F' then some (c.toNat - 'A'.toNat + 10)
  else none

/-- The number that a run of hexadecimal digits denotes. -/
def hexNumber? (digits : List Char) : Option Nat :=
  digits.foldl (fun total c => do return (← total) * 16 + (← hexValue? c)) (some 0)

/-- The character with a given code point; surrogates are no characters. -/
def scalar? (code : Nat) : Option Char :=
  if code.isValidChar then some (Char.ofNat code) else none

/-- The character that a one-letter escape stands for. -/
def shortEscape? (c : Char) : Option Char :=
  if c = 'n' then some '\n'
  else if c = 't' then some '\t'
  else if c = 'r' then some '\r'
  else if c = 'b' then some '\x08'
  else if c = 'f' then some '\x0c'
  else if c = '"' ∨ c = '\'' ∨ c = '\\' ∨ c = '/' then some c
  else none

/-- The hexadecimal digits at the start of a text, at most four of them. -/
def leadingHex (cs : List Char) : List Char :=
  (cs.take 4).takeWhile fun c => (hexValue? c).isSome

/-- The contents of a string after its opening quote, up to and including the closing one. -/
def scanContents (quote : Char) : List Char → Scan (List Char)
  | [] => .failed (.unterminated quote) [] []
  | c :: rest =>
    if c = '\n' then .failed (.unterminated quote) [] (c :: rest)
    else if c = quote then .found [] [c] rest
    else if c = '\\' then
      match rest with
      | [] => .failed .badEscape [c] []
      | 'u' :: a :: b :: d :: e :: others =>
        match (hexNumber? [a, b, d, e]).bind scalar? with
        | some character =>
          ((scanContents quote others).map (character :: ·)).after ['\\', 'u', a, b, d, e]
        | none =>
          let digits := leadingHex [a, b, d, e]
          .failed .badEscape ('\\' :: 'u' :: digits) ((a :: b :: d :: e :: others).drop digits.length)
      | 'u' :: others =>
        let digits := leadingHex others
        .failed .badEscape ('\\' :: 'u' :: digits) (others.drop digits.length)
      | escaped :: others =>
        match shortEscape? escaped with
        | some character =>
          ((scanContents quote others).map (character :: ·)).after ['\\', escaped]
        | none => .failed .badEscape ['\\'] (escaped :: others)
    else ((scanContents quote rest).map (c :: ·)).after [c]

theorem leadingHex_append (cs : List Char) : leadingHex cs ++ cs.drop (leadingHex cs).length = cs := by
  refine List.prefix_iff_eq_append.mp ?_
  exact (List.takeWhile_prefix _).trans (List.take_prefix 4 cs)

theorem whole_scanContents (quote : Char) (cs : List Char) : (scanContents quote cs).whole = cs := by
  fun_induction scanContents quote cs with
  | case6 a b d e others =>
    have law := leadingHex_append ([a, b, d, e] ++ others)
    have short : leadingHex ([a, b, d, e] ++ others) = leadingHex [a, b, d, e] := by
      simp [leadingHex]
    rw [short] at law
    simpa using law
  | case7 others => simpa using leadingHex_append others
  | _ => simp_all

/-- A run of decimal digits, of which there must be at least one. -/
def scanDigits (cs : List Char) : Scan Unit :=
  let digits := cs.takeWhile Char.isDigit
  if digits.isEmpty then .failed .badNumber [] cs
  else .found () digits (cs.dropWhile Char.isDigit)

theorem whole_scanDigits (cs : List Char) : (scanDigits cs).whole = cs := by
  unfold scanDigits
  simp only
  split <;> simp [List.takeWhile_append_dropWhile]

/-- The fraction of a number: a point counts only when a digit follows it. -/
def splitFraction : List Char → List Char × List Char
  | '.' :: d :: rest =>
    if d.isDigit then ('.' :: (d :: rest).takeWhile Char.isDigit, (d :: rest).dropWhile Char.isDigit)
    else ([], '.' :: d :: rest)
  | cs => ([], cs)

/-- The exponent of a number, if one starts here: then it must have digits. -/
def scanExponent : List Char → Scan Unit
  | mark :: rest =>
    if mark = 'e' ∨ mark = 'E' then
      match rest with
      | sign :: digits =>
        if sign = '+' ∨ sign = '-' then (scanDigits digits).after [mark, sign]
        else (scanDigits rest).after [mark]
      | [] => (scanDigits []).after [mark]
    else .found () [] (mark :: rest)
  | [] => .found () [] []

theorem whole_scanExponent (cs : List Char) : (scanExponent cs).whole = cs := by
  unfold scanExponent
  repeat' split
  all_goals simp [whole_scanDigits]

theorem splitFraction_append (cs : List Char) :
    (splitFraction cs).1 ++ (splitFraction cs).2 = cs := by
  unfold splitFraction
  split
  · split <;> simp [List.takeWhile_append_dropWhile]
  · simp

def scanUnsigned (cs : List Char) : Scan Unit :=
  match scanDigits cs with
  | .failed fault passed rest => .failed fault passed rest
  | .found _ whole rest =>
    let (fraction, others) := splitFraction rest
    (scanExponent others).after (whole ++ fraction)

theorem whole_scanUnsigned (cs : List Char) : (scanUnsigned cs).whole = cs := by
  have digits := whole_scanDigits cs
  unfold scanUnsigned
  split
  next same => rw [same] at digits; exact digits
  next same =>
    rw [same] at digits
    simp only [Scan.whole_after, whole_scanExponent, List.append_assoc, splitFraction_append]
    exact digits

/-- A number: an optional minus sign, digits, an optional fraction and an optional exponent. -/
def scanNumber : List Char → Scan Unit
  | '-' :: rest => (scanUnsigned rest).after ['-']
  | cs => scanUnsigned cs

theorem whole_scanNumber (cs : List Char) : (scanNumber cs).whole = cs := by
  unfold scanNumber
  split <;> simp [whole_scanUnsigned]

theorem passed_ne_nil_of_scanUnsigned {cs passed rest : List Char}
    (found : scanUnsigned cs = .found () passed rest) : passed ≠ [] := by
  unfold scanUnsigned scanDigits at found
  simp only at found
  split at found
  next => simp at found
  next same =>
    split at same
    · simp at same
    next nonempty =>
      simp only [Scan.found.injEq, true_and] at same
      obtain ⟨rfl, rfl⟩ := same
      generalize scanExponent _ = exponent at found
      cases exponent <;> simp only [Scan.after, Scan.found.injEq, reduceCtorEq] at found
      rw [← found.2.1]
      simp only [List.isEmpty_iff] at nonempty
      simp [nonempty]

theorem passed_ne_nil_of_scanNumber {cs passed rest : List Char}
    (found : scanNumber cs = .found () passed rest) : passed ≠ [] := by
  unfold scanNumber at found
  split at found
  next others =>
    cases scanned : scanUnsigned others <;>
      simp only [scanned, Scan.after, Scan.found.injEq, reduceCtorEq] at found
    rw [← found.2.1]
    simp
  next => exact passed_ne_nil_of_scanUnsigned found

def scanWord (cs : List Char) : Scan Literal :=
  match afterWord? "true" cs with
  | some rest => .found (.bool true) "true".toList rest
  | none =>
    match afterWord? "false" cs with
    | some rest => .found (.bool false) "false".toList rest
    | none =>
      match afterWord? "null" cs with
      | some rest => .found .null "null".toList rest
      | none => .failed .missing [] cs

theorem whole_scanWord (cs : List Char) : (scanWord cs).whole = cs := by
  unfold scanWord
  repeat' split
  all_goals first
    | rfl
    | exact (eq_append_of_afterWord? (by assumption)).symm

def scan : List Char → Scan Literal
  | [] => .failed .missing [] []
  | c :: rest =>
    if c = '"' ∨ c = '\'' then
      ((scanContents c rest).map fun contents => Literal.string (String.ofList contents)).after [c]
    else if c = '-' ∨ c.isDigit then
      match scanNumber (c :: rest) with
      | .found _ passed others => .found (.number (String.ofList passed)) passed others
      | .failed fault passed others => .failed fault passed others
    else scanWord (c :: rest)

/-- A scan loses nothing. -/
theorem whole_scan (cs : List Char) : (scan cs).whole = cs := by
  cases cs with
  | nil => rfl
  | cons c rest =>
    have number := whole_scanNumber (c :: rest)
    simp only [scan]
    split
    · simp [whole_scanContents]
    · split
      · split <;> simp_all
      · exact whole_scanWord (c :: rest)

/-- A literal has at least one character. -/
theorem passed_ne_nil_of_scan {cs passed rest : List Char} {literal : Literal}
    (found : scan cs = .found literal passed rest) : passed ≠ [] := by
  have afterNonempty : ∀ {α : Type} {c : Char} {scan : Scan α} {value : α} {passed rest : List Char},
      scan.after [c] = .found value passed rest → passed ≠ [] := by
    intro α c scan value passed rest same
    cases scan <;> simp only [Scan.after, Scan.found.injEq, reduceCtorEq] at same
    rw [← same.2.1]
    simp
  cases cs with
  | nil => simp [scan] at found
  | cons c others =>
    simp only [scan] at found
    split at found
    · exact afterNonempty found
    · split at found
      · split at found
        next scanned =>
          simp only [Scan.found.injEq] at found
          rw [← found.2.1]
          exact passed_ne_nil_of_scanNumber scanned
        next => simp at found
      · unfold scanWord at found
        repeat' split at found
        all_goals simp_all only [Scan.found.injEq, reduceCtorEq]
        all_goals rw [← found.2.1]; decide

end Literal

end ApiDef.Text
