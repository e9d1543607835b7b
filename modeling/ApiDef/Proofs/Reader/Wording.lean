import ApiDef.Check.Finding
import ApiDef.Proofs.Text.Literal
import ApiDef.Reader.Lexical
import Mathlib.Data.List.Chain
set_option autoImplicit false

/-!
# What a message says was found

A message that names what was expected and what was found can be taken apart in one way only: no word of
the alternatives is the word that stands between the two parts.
-/

namespace ApiDef

open Text

namespace Fault

/-- No word of a text starts like the word that stands behind the alternatives. -/
def AvoidsBut (cs : List Char) : Prop :=
  (' ' :: cs).IsChain fun c next => c = ' ' → next ≠ 'b'

theorem AvoidsBut.concat {cs : List Char} (avoids : AvoidsBut cs) {c : Char} (other : c ≠ 'b') :
    AvoidsBut (cs ++ [c]) := by
  apply List.IsChain.append avoids (List.isChain_singleton c)
  intro _ _ next member _
  obtain rfl : c = next := by simpa using member
  exact other

/-- Two texts with a blank between them. -/
theorem AvoidsBut.join {first second : List Char} (here : AvoidsBut first) (there : AvoidsBut second) :
    AvoidsBut (first ++ ' ' :: second) := by
  have upToBlank := here.concat (c := ' ') (by decide)
  have whole : (' ' :: first ++ ' ' :: second).IsChain fun c next => c = ' ' → next ≠ 'b' :=
    List.isChain_split.mpr ⟨upToBlank, there⟩
  exact whole

theorem avoidsBut_of_solid {c : Char} {cs : List Char} (first : c ≠ 'b') (solid : ' ' ∉ c :: cs) :
    AvoidsBut (c :: cs) := by
  refine List.isChain_cons_cons.mpr ⟨fun _ => first, List.Pairwise.isChain ?_⟩
  refine List.pairwise_of_forall_mem_list fun other member _ _ blank => ?_
  exact absurd (blank ▸ member) solid

/-- Only one end of a text is left when the word between the two ends is found. -/
theorem AvoidsBut.eq_of_append {first second left right : List Char} (firstAvoids : AvoidsBut first)
    (secondAvoids : AvoidsBut second)
    (same : first ++ ' ' :: 'b' :: 'u' :: 't' :: ' ' :: second
      = left ++ ' ' :: 'b' :: 'u' :: 't' :: ' ' :: right) : right = second := by
  have word : ∀ {before after : List Char},
      ¬(before ++ ' ' :: 'b' :: after).IsChain fun c next => c = ' ' → next ≠ 'b' :=
    fun chain => (List.isChain_append_cons_cons.mp chain).2.1 rfl rfl
  rcases List.append_eq_append_iff.mp same with ⟨middle, -, tail⟩ | ⟨middle, head, tail⟩
  · -- The second part would hold the word.
    cases middle with
    | nil => simpa using tail.symm
    | cons c middle =>
      obtain ⟨-, tail⟩ := List.cons.inj tail
      have chain : ('b' :: 'u' :: 't' :: ' ' :: second).IsChain fun c next => c = ' ' → next ≠ 'b' :=
        List.isChain_cons_cons.mpr ⟨by decide, List.isChain_cons_cons.mpr ⟨by decide,
          List.isChain_cons_cons.mpr ⟨by decide, secondAvoids⟩⟩⟩
      have inside : 'b' :: 'u' :: 't' :: ' ' :: second
          = middle ++ ' ' :: 'b' :: 'u' :: 't' :: ' ' :: right := tail
      rw [inside] at chain
      exact absurd chain word
  · -- The first part would hold the word, or its last blank would be a letter.
    cases middle with
    | nil => simpa using tail
    | cons c middle =>
      obtain ⟨blank, tail⟩ := List.cons.inj tail
      cases middle with
      | nil => cases (List.cons.inj tail).1
      | cons d middle =>
        obtain ⟨letter, -⟩ := List.cons.inj tail
        rw [head, ← blank, ← letter, AvoidsBut, ← List.cons_append] at firstAvoids
        exact absurd firstAvoids word

/-!
## Alternatives
-/

theorem blank_mem_escape {c : Char} (member : ' ' ∈ escape c) : c = ' ' := by
  have hex : ∀ n, ' ' ∉ fourHexDigits n := by
    intro n member
    have digit : ∀ m, m < 16 → Nat.digitChar m ≠ ' ' := by decide
    simp only [fourHexDigits, List.mem_cons, List.not_mem_nil, or_false] at member
    rcases member with same | same | same | same <;>
      exact digit _ (Nat.mod_lt _ (by decide)) same.symm
  unfold escape at member
  repeat' split at member
  all_goals simp only [List.mem_cons, List.not_mem_nil, or_false] at member
  all_goals first
    | exact member.symm
    | simp [hex] at member

theorem avoidsBut_quote {text : String} (solid : ' ' ∉ text.toList) : AvoidsBut (quote text).toList := by
  rw [quote, String.toList_ofList, quoteChars]
  refine avoidsBut_of_solid (by decide) fun blank => ?_
  simp only [List.mem_cons, List.mem_append, List.mem_flatMap, List.not_mem_nil, or_false] at blank
  rcases blank with same | ⟨c, member, inEscape⟩ | same
  · cases same
  · exact solid (blank_mem_escape inEscape ▸ member)
  · cases same

end Fault

/-- The characters of a mark are no blanks. -/
def Expected.isPlain : Expected → Bool
  | mark text => !text.toList.contains ' '
  | _ => true

namespace Fault

theorem avoidsBut_expected {expected : Expected} (plain : expected.isPlain = true) :
    AvoidsBut expected.text.toList := by
  cases expected with
  | mark text => exact avoidsBut_quote (by simpa [Expected.isPlain] using plain)
  | character | comment | digit | endOfInput | escapeSequence | identifier | number | string =>
    unfold AvoidsBut
    decide

theorem avoidsBut_foundText (found : Option Char) : AvoidsBut (foundText found).toList := by
  cases found with
  | none =>
    unfold AvoidsBut
    decide
  | some c =>
    by_cases blank : c = ' '
    · subst blank
      unfold AvoidsBut
      decide
    · exact avoidsBut_quote (by simpa using Ne.symm blank)

theorem avoidsBut_intercalate {texts : List (List Char)} (each : ∀ text ∈ texts, AvoidsBut text) :
    AvoidsBut ([',', ' '].intercalate texts) := by
  induction texts with
  | nil =>
    unfold AvoidsBut
    decide
  | cons first others ih =>
    have here := each first List.mem_cons_self
    have there := ih fun text member => each text (List.mem_cons_of_mem _ member)
    cases others with
    | nil => simpa [List.intercalate] using here
    | cons second others =>
      rw [List.intercalate_cons_cons]
      simpa using (here.concat (c := ',') (by decide)).join there

theorem avoidsBut_alternatives {texts : List String} (each : ∀ text ∈ texts, AvoidsBut text.toList) :
    AvoidsBut (alternatives texts).toList := by
  have word : AvoidsBut ['o', 'r'] := by
    unfold AvoidsBut
    decide
  match texts with
  | [] =>
    unfold AvoidsBut
    decide
  | [one] => exact each one List.mem_cons_self
  | [first, second] =>
    have here := each first List.mem_cons_self
    have there := each second (List.mem_cons_of_mem _ List.mem_cons_self)
    simpa [alternatives] using here.join (word.join there)
  | first :: second :: third :: others =>
    have listed : AvoidsBut
        ([',', ' '].intercalate ((first :: second :: third :: others).dropLast.map String.toList)) :=
      avoidsBut_intercalate (List.forall_mem_map.mpr fun text member =>
        each text (List.dropLast_subset _ member))
    have last := each _ (List.getLast_mem (List.cons_ne_nil first (second :: third :: others)))
    have shown : (first :: second :: third :: others).getLast?.getD ""
        = (first :: second :: third :: others).getLast (List.cons_ne_nil _ _) := by
      rw [List.getLast?_eq_some_getLast (List.cons_ne_nil _ _), Option.getD_some]
    rw [← shown] at last
    have parts : (alternatives (first :: second :: third :: others)).toList
        = [',', ' '].intercalate ((first :: second :: third :: others).dropLast.map String.toList)
          ++ ',' :: ' ' :: 'o' :: 'r' :: ' '
            :: ((first :: second :: third :: others).getLast?.getD "").toList := by
      simp [alternatives, String.toList_intercalate]
    rw [parts]
    simpa using (listed.concat (c := ',') (by decide)).join (word.join last)

theorem toList_between {opening word closing first second left right : String}
    (same : opening ++ first ++ word ++ second ++ closing
      = opening ++ left ++ word ++ right ++ closing) :
    first.toList ++ (word.toList ++ second.toList) = left.toList ++ (word.toList ++ right.toList) := by
  have whole := congrArg String.toList same
  simp only [String.toList_append, List.append_assoc, List.append_cancel_left_eq] at whole
  simp only [← List.append_assoc, List.append_cancel_right_eq] at whole
  simpa only [List.append_assoc] using whole

/-- What such a message says was found is what the fault has found. -/
theorem found_of_message {expected : List Expected} {found : Option Char} {listed shown : String}
    (plain : ∀ alternative ∈ expected, alternative.isPlain = true)
    (message : (Cause.unexpected expected found).message
      = "Expected " ++ listed ++ " but " ++ shown ++ " found.") : shown = foundText found := by
  have alternativesAvoid : AvoidsBut (alternatives (expected.map Expected.text)).toList :=
    avoidsBut_alternatives (List.forall_mem_map.mpr fun alternative member =>
      avoidsBut_expected (plain alternative member))
  have word : " but ".toList = [' ', 'b', 'u', 't', ' '] := rfl
  have middle := toList_between message
  rw [word] at middle
  exact String.toList_inj.mp (alternativesAvoid.eq_of_append (avoidsBut_foundText found) middle)

/-!
## Other messages
-/

/-- A text does not start like the messages that name what was expected. -/
def StartsApart (text : String) : Prop :=
  2 ≤ text.toList.length ∧ text.toList.take 2 ≠ ['E', 'x']

instance (text : String) : Decidable (StartsApart text) :=
  inferInstanceAs (Decidable (_ ∧ _))

theorem StartsApart.append {first : String} (apart : StartsApart first) (second : String) :
    StartsApart (first ++ second) := by
  obtain ⟨long, differs⟩ := apart
  constructor
  · rw [String.toList_append, List.length_append]
    omega
  · rwa [String.toList_append, List.take_append_of_le_length long]

theorem StartsApart.ne {text : String} (apart : StartsApart text) (tail : String) :
    text ≠ "Expected " ++ tail := by
  have expected : "Expected ".toList.take 2 = ['E', 'x'] := by decide
  rintro rfl
  apply apart.2
  rw [String.toList_append, List.take_append_of_le_length (by decide), expected]

/-- No other fault has a message that starts in this way. -/
theorem exists_unexpected_of_message {cause : Cause} {tail : String}
    (message : cause.message = "Expected " ++ tail) :
    ∃ expected found, cause = .unexpected expected found := by
  have apart : ∀ {text : String}, StartsApart text → text ≠ "Expected " ++ tail :=
    fun starts => starts.ne tail
  cases cause with
  | unexpected expected found => exact ⟨expected, found, rfl⟩
  | enumerationsForbidden | dataTypesForbidden | methodsForbidden =>
    exact absurd message (apart (by decide))
  | tooDeep limit =>
    exact absurd message (apart (.append (.append (by decide) _) _))

end Fault

theorem Issue.startsApart_message (issue : Issue) : Fault.StartsApart issue.message := by
  cases issue with
  | tagForbidden site => exact .append (by decide) _
  | tagUnknown site allowed => exact .append (.append (.append (by decide) _) _) _
  | type issue => cases issue <;> exact .append (.append (by decide) _) _
  | route issue =>
    cases issue with
    | unboundVariable name => exact .append (by decide) _
    | unsupportedType name type =>
      exact .append (.append (.append (.append (.append (by decide) _) _) _) _) _
    | badShape | unusedParameter => exact .append (.append (by decide) _) _
    | badPattern => exact .append (.append (.append (by decide) _) _) _

/-!
## What literals expect
-/

namespace Text.Literal

/-- A string that does not end is missing the mark that opened it. -/
theorem mark_of_scanContents {mark other : Char} {cs passed rest : List Char}
    (failed : scanContents mark cs = .failed (.unterminated other) passed rest) : other = mark := by
  fun_induction scanContents mark cs generalizing passed
  case case1 | case2 =>
    obtain ⟨same, -, -⟩ := Scan.failed.inj failed
    exact (Fault.unterminated.inj same).symm
  case case5 ih | case8 ih | case10 ih =>
    obtain ⟨inner, mapped, -⟩ := Scan.after_eq_failed failed
    exact ih (Scan.map_eq_failed mapped)
  all_goals cases failed

theorem badNumber_of_scanDigits {cs passed rest : List Char} {fault : Fault}
    (failed : scanDigits cs = .failed fault passed rest) : fault = .badNumber := by
  simp only [scanDigits] at failed
  split at failed
  · exact (Scan.failed.inj failed).1.symm
  · cases failed

theorem badNumber_of_scanExponent {cs passed rest : List Char} {fault : Fault}
    (failed : scanExponent cs = .failed fault passed rest) : fault = .badNumber := by
  have digits : ∀ {cs before : List Char}, (scanDigits cs).after before = .failed fault passed rest →
      fault = .badNumber := by
    intro cs before failed
    obtain ⟨inner, scanned, -⟩ := Scan.after_eq_failed failed
    exact badNumber_of_scanDigits scanned
  unfold scanExponent at failed
  repeat' split at failed
  all_goals first
    | exact digits failed
    | cases failed

theorem badNumber_of_scanNumber {cs passed rest : List Char} {fault : Fault}
    (failed : scanNumber cs = .failed fault passed rest) : fault = .badNumber := by
  have unsigned : ∀ {cs passed : List Char}, scanUnsigned cs = .failed fault passed rest →
      fault = .badNumber := by
    intro cs passed failed
    unfold scanUnsigned at failed
    split at failed
    next digits =>
      obtain ⟨rfl, -, -⟩ := Scan.failed.inj failed
      exact badNumber_of_scanDigits digits
    next =>
      obtain ⟨inner, scanned, -⟩ := Scan.after_eq_failed failed
      exact badNumber_of_scanExponent scanned
  unfold scanNumber at failed
  split at failed
  next =>
    obtain ⟨inner, scanned, -⟩ := Scan.after_eq_failed failed
    exact unsigned scanned
  next => exact unsigned failed

theorem missing_of_scanWord {cs passed rest : List Char} {fault : Fault}
    (failed : scanWord cs = .failed fault passed rest) : fault = .missing := by
  unfold scanWord at failed
  repeat' split at failed
  all_goals cases failed
  rfl

theorem mark_of_scan {mark : Char} {cs passed rest : List Char}
    (failed : scan cs = .failed (.unterminated mark) passed rest) : mark = '"' ∨ mark = '\'' := by
  cases cs with
  | nil => cases failed
  | cons c others =>
    simp only [scan] at failed
    split at failed
    next opens =>
      obtain ⟨inner, mapped, -⟩ := Scan.after_eq_failed failed
      rw [mark_of_scanContents (Scan.map_eq_failed mapped)]
      exact opens
    next =>
      split at failed
      next =>
        split at failed
        next => cases failed
        next scanned =>
          obtain ⟨rfl, -, -⟩ := Scan.failed.inj failed
          cases badNumber_of_scanNumber scanned
      next => cases missing_of_scanWord failed

end Text.Literal

theorem Expected.isPlain_singleton {c : Char} (solid : c ≠ ' ') :
    (mark (String.singleton c)).isPlain = true := by
  simpa [isPlain] using Ne.symm solid

theorem Reader.isPlain_literalExpected {cs passed rest : List Char} {fault : Literal.Fault}
    (failed : Literal.scan cs = .failed fault passed rest) :
    ∀ alternative ∈ literalExpected fault, alternative.isPlain = true := by
  cases fault with
  | missing => exact List.all_eq_true.mp (by decide)
  | badEscape => exact List.all_eq_true.mp (by decide)
  | badNumber => exact List.all_eq_true.mp (by decide)
  | unterminated mark =>
    have solid : mark ≠ ' ' := by
      rcases Literal.mark_of_scan failed with same | same
      · rw [same]
        decide
      · rw [same]
        decide
    intro alternative member
    rcases List.mem_cons.mp member with rfl | member
    · exact Expected.isPlain_singleton solid
    · rw [List.mem_singleton.mp member]
      rfl

theorem Reader.isPlain_separators {close : Char} (solid : close ≠ ' ') :
    ∀ alternative ∈ separators close, alternative.isPlain = true := by
  have plain := Expected.isPlain_singleton solid
  have comma : (Expected.mark ",").isPlain = true := by decide
  unfold separators
  split
  · exact List.forall_mem_cons.mpr ⟨plain, List.forall_mem_singleton.mpr comma⟩
  · exact List.forall_mem_cons.mpr ⟨comma, List.forall_mem_singleton.mpr plain⟩

end ApiDef
