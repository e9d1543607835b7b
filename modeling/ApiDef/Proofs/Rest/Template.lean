import ApiDef.Proofs.Text.Scanning
import ApiDef.Rest.PathTemplate
import Mathlib.Data.List.Forall2
set_option autoImplicit false

/-!
# Path templates in pieces

Every path falls in exactly one way into literal texts and the bodies of variables in turn, perhaps
with a brace at the end that is never closed. Each body describes one variable, and a template has
these variables and no others.
-/

namespace ApiDef

namespace PathTemplate

open Text

/-!
## Braces
-/

section

variable {depth : Nat} {c : Char} {cs inside after : List Char}

/-- Behind `depth` open braces, nowhere in the text have more braces been closed than opened. -/
def StaysOpen (depth : Nat) (cs : List Char) : Prop :=
  ∀ front, front <+: cs → front.count '}' ≤ front.count '{' + depth

/-- The text closes all braces that are opened in it, and `depth` braces that were open before. -/
def ClosesAll (depth : Nat) (cs : List Char) : Prop :=
  StaysOpen depth cs ∧ cs.count '}' = cs.count '{' + depth

/-- The braces of the text match each other. -/
def IsBalanced (body : List Char) : Prop :=
  ClosesAll 0 body

theorem staysOpen_nil : StaysOpen depth [] := by
  intro front isFront
  rw [List.prefix_nil.mp isFront]
  simp

theorem staysOpen_cons_iff :
    StaysOpen depth (c :: cs)
      ↔ ∀ front, front <+: cs → (c :: front).count '}' ≤ (c :: front).count '{' + depth := by
  constructor
  · intro opens front isFront
    exact opens (c :: front) ((List.prefix_cons_inj c).mpr isFront)
  · intro opens front isFront
    rcases List.prefix_cons_iff.mp isFront with rfl | ⟨others, rfl, othersFront⟩
    · simp
    · exact opens others othersFront

theorem staysOpen_open : StaysOpen depth ('{' :: cs) ↔ StaysOpen (depth + 1) cs := by
  rw [staysOpen_cons_iff]
  refine forall_congr' fun front => imp_congr_right fun _ => ?_
  rw [List.count_cons_self, List.count_cons_of_ne (by decide)]
  omega

theorem staysOpen_close : StaysOpen (depth + 1) ('}' :: cs) ↔ StaysOpen depth cs := by
  rw [staysOpen_cons_iff]
  refine forall_congr' fun front => imp_congr_right fun _ => ?_
  rw [List.count_cons_self, List.count_cons_of_ne (by decide)]
  omega

theorem not_staysOpen_close : ¬StaysOpen 0 ('}' :: cs) := by
  intro opens
  exact absurd (opens ['}'] (List.prefix_append ['}'] cs)) (by decide)

theorem staysOpen_other (notOpen : c ≠ '{') (notClose : c ≠ '}') :
    StaysOpen depth (c :: cs) ↔ StaysOpen depth cs := by
  rw [staysOpen_cons_iff]
  refine forall_congr' fun front => imp_congr_right fun _ => ?_
  rw [List.count_cons_of_ne notOpen, List.count_cons_of_ne notClose]

theorem closesAll_nil_iff : ClosesAll depth [] ↔ depth = 0 := by
  simp [ClosesAll, staysOpen_nil, eq_comm]

theorem closesAll_open : ClosesAll depth ('{' :: cs) ↔ ClosesAll (depth + 1) cs := by
  rw [ClosesAll, ClosesAll, staysOpen_open, List.count_cons_self, List.count_cons_of_ne (by decide)]
  refine and_congr_right fun _ => ?_
  omega

theorem closesAll_close : ClosesAll (depth + 1) ('}' :: cs) ↔ ClosesAll depth cs := by
  rw [ClosesAll, ClosesAll, staysOpen_close, List.count_cons_self, List.count_cons_of_ne (by decide)]
  refine and_congr_right fun _ => ?_
  omega

theorem closesAll_other (notOpen : c ≠ '{') (notClose : c ≠ '}') :
    ClosesAll depth (c :: cs) ↔ ClosesAll depth cs := by
  rw [ClosesAll, ClosesAll, staysOpen_other notOpen notClose, List.count_cons_of_ne notOpen,
    List.count_cons_of_ne notClose]

theorem splitAtClose?_open :
    splitAtClose? depth ('{' :: cs)
      = (splitAtClose? (depth + 1) cs).map fun parts => ('{' :: parts.1, parts.2) := rfl

theorem splitAtClose?_close :
    splitAtClose? (depth + 1) ('}' :: cs)
      = (splitAtClose? depth cs).map fun parts => ('}' :: parts.1, parts.2) := rfl

theorem splitAtClose?_other (notOpen : c ≠ '{') (notClose : c ≠ '}') :
    splitAtClose? depth (c :: cs)
      = (splitAtClose? depth cs).map fun parts => (c :: parts.1, parts.2) := by
  simp only [splitAtClose?, if_neg notOpen, if_neg notClose]

/-- The closing brace is not found exactly if there is none. -/
theorem splitAtClose?_eq_none_iff : splitAtClose? depth cs = none ↔ StaysOpen depth cs := by
  -- A brace changes the depth for what is behind it, so the depth has to vary in the induction.
  induction cs generalizing depth with
  | nil => exact iff_of_true rfl staysOpen_nil
  | cons c cs ih =>
    by_cases isOpen : c = '{'
    · rw [isOpen, splitAtClose?_open, Option.map_eq_none_iff, ih, staysOpen_open]
    by_cases isClose : c = '}'
    · rw [isClose]
      cases depth with
      | zero => exact iff_of_false (Option.some_ne_none _) not_staysOpen_close
      | succ outer => rw [splitAtClose?_close, Option.map_eq_none_iff, ih, staysOpen_close]
    · rw [splitAtClose?_other isOpen isClose, Option.map_eq_none_iff, ih,
        staysOpen_other isOpen isClose]

/-- The closing brace stands behind the text that closes all others. -/
theorem splitAtClose?_append (closes : ClosesAll depth inside) :
    splitAtClose? depth (inside ++ '}' :: after) = some (inside, after) := by
  induction inside generalizing depth with
  | nil =>
    obtain rfl := closesAll_nil_iff.mp closes
    rfl
  | cons c inside ih =>
    rw [List.cons_append]
    by_cases isOpen : c = '{'
    · rw [isOpen] at closes ⊢
      rw [splitAtClose?_open, ih (closesAll_open.mp closes)]
      rfl
    by_cases isClose : c = '}'
    · rw [isClose] at closes ⊢
      cases depth with
      | zero => exact absurd closes.1 not_staysOpen_close
      | succ outer =>
        rw [splitAtClose?_close, ih (closesAll_close.mp closes)]
        rfl
    · rw [splitAtClose?_other isOpen isClose, ih ((closesAll_other isOpen isClose).mp closes)]
      rfl

theorem closesAll_of_splitAtClose? (split : splitAtClose? depth cs = some (inside, after)) :
    ClosesAll depth inside := by
  induction cs generalizing depth inside with
  | nil => cases split
  | cons c cs ih =>
    by_cases isOpen : c = '{'
    · rw [isOpen, splitAtClose?_open] at split
      obtain ⟨inner, found, rfl⟩ := exists_of_map_cons split
      exact closesAll_open.mpr (ih found)
    by_cases isClose : c = '}'
    · rw [isClose] at split
      cases depth with
      | zero =>
        obtain ⟨rfl, rfl⟩ := Prod.mk.inj (Option.some.inj split)
        exact closesAll_nil_iff.mpr rfl
      | succ outer =>
        rw [splitAtClose?_close] at split
        obtain ⟨inner, found, rfl⟩ := exists_of_map_cons split
        exact closesAll_close.mpr (ih found)
    · rw [splitAtClose?_other isOpen isClose] at split
      obtain ⟨inner, found, rfl⟩ := exists_of_map_cons split
      exact (closesAll_other isOpen isClose).mpr (ih found)

end

/-!
## Pieces
-/

/-- A path in pieces. -/
inductive Pieces where
  /-- Text without variables up to the end. -/
  | literal (text : List Char)
  /-- Text, and behind it an opening brace and what it does not close. -/
  | unclosed (text behind : List Char)
  /-- Text, the body of a variable in braces, and the pieces behind it. -/
  | bound (text body : List Char) (others : Pieces)

namespace Pieces

/-- The path that the pieces make. -/
def path : Pieces → List Char
  | literal text => text
  | unclosed text behind => text ++ '{' :: behind
  | bound text body others => text ++ '{' :: (body ++ '}' :: others.path)

/-- The bodies of the variables, from left to right. -/
def bodies : Pieces → List (List Char)
  | literal _ => []
  | unclosed _ _ => []
  | bound _ body others => body :: others.bodies

/-- Text opens no brace, the braces in a body match, and what is behind an unclosed brace does not
close it. -/
def IsProper : Pieces → Prop
  | literal text => '{' ∉ text
  | unclosed text behind => '{' ∉ text ∧ StaysOpen 0 behind
  | bound text body others => '{' ∉ text ∧ IsBalanced body ∧ others.IsProper

/-- The pieces of a path, taken off its front one by one. -/
def ofPath (path : List Char) : Pieces :=
  match _cut : cutAt? '{' path with
  | none => literal path
  | some (text, behind) =>
    match _split : splitAtClose? 0 behind with
    | none => unclosed text behind
    | some (body, after) => bound text body (ofPath after)
termination_by path.length
decreasing_by
  rw [(cutAt?_eq_some_iff.mp _cut).1, eq_append_of_splitAtClose? _split]
  simp only [List.length_append, List.length_cons]
  omega

theorem path_ofPath (path : List Char) : (ofPath path).path = path := by
  fun_induction ofPath path with
  | case1 path cut => rfl
  | case2 path text behind cut split => exact (cutAt?_eq_some_iff.mp cut).1.symm
  | case3 path text behind cut body after split ih =>
    rw [Pieces.path, ih, ← eq_append_of_splitAtClose? split, ← (cutAt?_eq_some_iff.mp cut).1]

theorem isProper_ofPath (path : List Char) : (ofPath path).IsProper := by
  fun_induction ofPath path with
  | case1 path cut => exact cutAt?_eq_none_iff.mp cut
  | case2 path text behind cut split =>
    exact ⟨(cutAt?_eq_some_iff.mp cut).2, splitAtClose?_eq_none_iff.mp split⟩
  | case3 path text behind cut body after split ih =>
    exact ⟨(cutAt?_eq_some_iff.mp cut).2, closesAll_of_splitAtClose? split, ih⟩

/-- The pieces that make a path are the ones that are taken off it. -/
theorem ofPath_path {pieces : Pieces} (proper : pieces.IsProper) : ofPath pieces.path = pieces := by
  -- The path alone decides where the first brace stands and where it is closed. In each case, the
  -- other ways to cut the path contradict this.
  induction pieces with
  | literal text =>
    have cut := cutAt?_eq_none_iff.mpr proper
    rw [Pieces.path, ofPath]
    split
    next => rfl
    next other => simp [cut] at other
  | unclosed text behind =>
    obtain ⟨plain, opens⟩ := proper
    have split := splitAtClose?_eq_none_iff.mpr opens
    rw [Pieces.path, ofPath]
    split
    next other => simp [cutAt?_append plain] at other
    next cut =>
      obtain ⟨rfl, rfl⟩ := Prod.mk.inj (Option.some.inj (cut.symm.trans (cutAt?_append plain)))
      split
      next => rfl
      next other => simp [split] at other
  | bound text body others ih =>
    obtain ⟨plain, balanced, othersProper⟩ := proper
    rw [Pieces.path, ofPath]
    split
    next other => simp [cutAt?_append plain] at other
    next cut =>
      obtain ⟨rfl, rfl⟩ := Prod.mk.inj (Option.some.inj (cut.symm.trans (cutAt?_append plain)))
      split
      next other => simp [splitAtClose?_append balanced] at other
      next found =>
        have same := found.symm.trans (splitAtClose?_append balanced)
        obtain ⟨rfl, rfl⟩ := Prod.mk.inj (Option.some.inj same)
        rw [ih othersProper]

end Pieces

/-!
## Variables
-/

section

variable {text body behind after : List Char}

theorem pathVariablesOf_text (plain : '{' ∉ text) :
    pathVariablesOf (text ++ behind) = pathVariablesOf behind := by
  induction text with
  | nil => rfl
  | cons c others ih =>
    have different : c ≠ '{' := Ne.symm (List.ne_of_not_mem_cons plain)
    rw [List.cons_append, pathVariablesOf, if_neg different,
      ih (List.not_mem_of_not_mem_cons plain)]

theorem pathVariablesOf_unclosed (opens : StaysOpen 0 behind) :
    pathVariablesOf ('{' :: behind) = [] := by
  have none := splitAtClose?_eq_none_iff.mpr opens
  rw [pathVariablesOf, if_pos rfl]
  split
  next found => simp [none] at found
  next => rfl

theorem pathVariablesOf_body (balanced : IsBalanced body) :
    pathVariablesOf ('{' :: (body ++ '}' :: after)) = variableOf body :: pathVariablesOf after := by
  have split : splitAtClose? 0 (body ++ '}' :: after) = some (body, after) :=
    splitAtClose?_append balanced
  rw [pathVariablesOf, if_pos rfl]
  split
  next found =>
    obtain ⟨rfl, rfl⟩ := Prod.mk.inj (Option.some.inj (found.symm.trans split))
    rfl
  next other => simp [split] at other

end

/-- Each body gives one variable, and an unclosed brace gives none. -/
theorem pathVariablesOf_path {pieces : Pieces} (proper : pieces.IsProper) :
    pathVariablesOf pieces.path = pieces.bodies.map variableOf := by
  induction pieces with
  | literal text =>
    rw [Pieces.path, ← List.append_nil text, pathVariablesOf_text proper, pathVariablesOf]
    rfl
  | unclosed text behind =>
    obtain ⟨plain, opens⟩ := proper
    rw [Pieces.path, pathVariablesOf_text plain, pathVariablesOf_unclosed opens]
    rfl
  | bound text body others ih =>
    obtain ⟨plain, balanced, othersProper⟩ := proper
    rw [Pieces.path, pathVariablesOf_text plain, pathVariablesOf_body balanced, ih othersProper]
    rfl

/-- How a body describes a variable. The name stands in front of the first colon, and blanks at its
ends do not count; all that stands behind the colon is the pattern. Without a colon there is only a
name. -/
inductive Describes : List Char → PathVariable → Prop where
  | named {name : List Char} : ':' ∉ name → Describes name ⟨trim (String.ofList name), none⟩
  | patterned {name pattern : List Char} : ':' ∉ name →
    Describes (name ++ ':' :: pattern) ⟨trim (String.ofList name), some (String.ofList pattern)⟩

theorem describes_variableOf (body : List Char) : Describes body (variableOf body) := by
  unfold variableOf
  split
  next cut =>
    obtain ⟨rfl, absent⟩ := cutAt?_eq_some_iff.mp cut
    exact .patterned absent
  next cut => exact .named (cutAt?_eq_none_iff.mp cut)

/-- A path falls into pieces in exactly one way, and its variables are what the bodies among these
pieces describe, in order. -/
theorem exists_pieces_pathVariables (path : String) :
    ∃ pieces : Pieces, pieces.IsProper ∧ pieces.path = path.toList
      ∧ (∀ others : Pieces, others.IsProper → others.path = path.toList → others = pieces)
      ∧ List.Forall₂ Describes pieces.bodies (pathVariables path) := by
  have proper := Pieces.isProper_ofPath path.toList
  have whole := Pieces.path_ofPath path.toList
  refine ⟨.ofPath path.toList, proper, whole, fun others othersProper same => ?_, ?_⟩
  · rw [← same, Pieces.ofPath_path othersProper]
  · have described : pathVariables path = (Pieces.ofPath path.toList).bodies.map variableOf := by
      rw [← pathVariablesOf_path proper, whole, pathVariables]
    rw [described, List.forall₂_map_right_iff, List.forall₂_same]
    exact fun body _ => describes_variableOf body

example : pathVariables "/a\x7d/\x7b code : [0-9]\x7b3\x7d:x\x7d/\x7bname\x7d/\x7bopen" =
    [⟨"code", some " [0-9]\x7b3\x7d:x"⟩, ⟨"name", none⟩] := by decide +kernel

end PathTemplate

end ApiDef
