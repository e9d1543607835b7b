import ApiDef.CommandLine.Response
import ApiDef.Proofs.Text.Scanning
set_option autoImplicit false

/-!
# Plain line endings

Making every line ending a line feed takes one carriage return from each line that another line
follows. A part of a text that cannot be joined to what follows it is changed by itself.
-/

namespace ApiDef.CommandLine

open Text

theorem plainLineEndings_return (rest : List Char) :
    plainLineEndings ('\r' :: '\n' :: rest) = '\n' :: plainLineEndings rest := by
  rw [plainLineEndings]

/-- A character stays unless it is the carriage return of a line ending. -/
theorem plainLineEndings_cons {c : Char} {rest : List Char}
    (keeps : c = '\r' → rest.head? ≠ some '\n') :
    plainLineEndings (c :: rest) = c :: plainLineEndings rest := by
  rw [plainLineEndings]
  rintro others rfl rfl
  exact keeps rfl rfl

theorem plainLineEndings_of_head?_ne {line rest : List Char} (oneLine : '\n' ∉ line)
    (keeps : line.getLast? = some '\r' → rest.head? ≠ some '\n') :
    plainLineEndings (line ++ rest) = line ++ plainLineEndings rest := by
  induction line with
  | nil => rfl
  | cons c line ih =>
    rw [List.mem_cons, not_or] at oneLine
    cases line with
    | nil =>
      refine plainLineEndings_cons fun isReturn => keeps ?_
      rw [isReturn, List.getLast?_singleton]
    | cons d line =>
      have notLineFeed : d ≠ '\n' := by
        rintro rfl
        exact oneLine.2 List.mem_cons_self
      rw [List.cons_append, plainLineEndings_cons, ih oneLine.2]
      · rfl
      · rwa [List.getLast?_cons_cons] at keeps
      · intro _ same
        exact notLineFeed (Option.some.inj same)

/-- A line that is followed by another one loses one carriage return. -/
theorem plainLineEndings_line {line : List Char} (oneLine : '\n' ∉ line) (rest : List Char) :
    plainLineEndings (line ++ '\n' :: rest)
      = dropCarriageReturn line ++ '\n' :: plainLineEndings rest := by
  have lineFeed : plainLineEndings ('\n' :: rest) = '\n' :: plainLineEndings rest :=
    plainLineEndings_cons (by rintro ⟨⟩)
  unfold dropCarriageReturn
  split
  next last =>
    obtain ⟨front, rfl⟩ := List.getLast?_eq_some_iff.mp last
    rw [List.mem_append, not_or] at oneLine
    have returnFirst : ('\r' :: '\n' :: rest).head? ≠ some '\n' := by simp
    rw [List.dropLast_concat, List.append_assoc, List.singleton_append,
      plainLineEndings_of_head?_ne oneLine.1 fun _ same => absurd same returnFirst,
      plainLineEndings_return]
  next notReturn =>
    rw [plainLineEndings_of_head?_ne oneLine (fun last => absurd last notReturn), lineFeed]

/-- Exactly the texts without a carriage return in front of a line feed stay as they are. -/
theorem plainLineEndings_eq_self_iff {cs : List Char} :
    plainLineEndings cs = cs ↔ ¬['\r', '\n'] <:+: cs := by
  fun_induction plainLineEndings cs with
  | case1 rest ih =>
    refine iff_of_false (fun same => ?_) fun outside => outside ⟨[], rest, rfl⟩
    exact absurd (List.cons.inj same).1 (by decide)
  | case2 c rest notEnding ih =>
    have notPrefix : ¬['\r', '\n'] <+: c :: rest := by
      rintro ⟨others, same⟩
      obtain ⟨rfl, rfl⟩ := List.cons.inj same
      exact notEnding others rfl rfl
    rw [List.cons_inj_right, ih, List.infix_cons_iff, not_or]
    exact (and_iff_right notPrefix).symm
  | case3 => simp

theorem plainLineEndings_trimStart (cs : List Char) :
    plainLineEndings (trimStart cs) = trimStart (plainLineEndings cs) := by
  have carriageReturn : isBlank '\r' = true := by decide
  unfold trimStart
  fun_induction plainLineEndings cs with
  | case1 rest ih =>
    rw [List.dropWhile_cons_of_pos carriageReturn, List.dropWhile_cons_of_pos isBlank_lineFeed,
      List.dropWhile_cons_of_pos isBlank_lineFeed, ih]
  | case2 c rest notEnding ih =>
    cases blank : isBlank c with
    | true => rw [List.dropWhile_cons_of_pos blank, List.dropWhile_cons_of_pos blank, ih]
    | false =>
      have solid : ¬isBlank c = true := Bool.eq_false_iff.mp blank
      rw [List.dropWhile_cons_of_neg solid, List.dropWhile_cons_of_neg solid, plainLineEndings]
      exact notEnding
  | case3 => rfl

/-!
## Parts of a text
-/

/-- Wherever one text stands, plain line endings make another one of it. -/
def BecomesPlain (passed plain : List Char) : Prop :=
  ∀ tail, plainLineEndings (passed ++ tail) = plain ++ plainLineEndings tail

theorem becomesPlain_nil : BecomesPlain [] [] :=
  fun _ => rfl

theorem BecomesPlain.append {first second plainFirst plainSecond : List Char}
    (here : BecomesPlain first plainFirst) (there : BecomesPlain second plainSecond) :
    BecomesPlain (first ++ second) (plainFirst ++ plainSecond) := by
  intro tail
  rw [List.append_assoc, here, there, List.append_assoc]

theorem BecomesPlain.cons {c : Char} (notReturn : c ≠ '\r') {passed plain : List Char}
    (others : BecomesPlain passed plain) : BecomesPlain (c :: passed) (c :: plain) := by
  intro tail
  rw [List.cons_append, plainLineEndings_cons fun same => absurd same notReturn, others]
  rfl

theorem becomesPlain_flatMap {ι : Type} {text plain : ι → List Char} {items : List ι}
    (each : ∀ x ∈ items, BecomesPlain (text x) (plain x)) :
    BecomesPlain (items.flatMap text) (items.flatMap plain) := by
  induction items with
  | nil => exact becomesPlain_nil
  | cons x others ih =>
    obtain ⟨here, there⟩ := List.forall_mem_cons.mp each
    exact here.append (ih there)

/-- Without carriage returns there is nothing to take. -/
theorem becomesPlain_self {cs : List Char} (noReturn : '\r' ∉ cs) : BecomesPlain cs cs := by
  induction cs with
  | nil => exact becomesPlain_nil
  | cons c cs ih =>
    rw [List.mem_cons, not_or] at noReturn
    exact (ih noReturn.2).cons (Ne.symm noReturn.1)

/-- In the middle of a line nothing is taken. -/
theorem becomesPlain_self_of_getLast? {cs : List Char} (oneLine : '\n' ∉ cs)
    (last : cs.getLast? ≠ some '\r') : BecomesPlain cs cs :=
  fun _ => plainLineEndings_of_head?_ne oneLine fun same => absurd same last

theorem becomesPlain_line {line : List Char} (oneLine : '\n' ∉ line) :
    BecomesPlain (line ++ ['\n']) (dropCarriageReturn line ++ ['\n']) := by
  intro tail
  rw [List.append_assoc, List.append_assoc]
  exact plainLineEndings_line oneLine tail

end ApiDef.CommandLine
