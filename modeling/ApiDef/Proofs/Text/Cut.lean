import ApiDef.Proofs.Text.Literal
set_option autoImplicit false

/-!
# Texts cut short

A run of characters ends at the first one that does not belong to it. Whether that one stands there or
the text is cut off in front of it makes no difference, so a text may be cut anywhere behind what was
taken from it.
-/

namespace ApiDef.Text

variable {tail rest : List Char}

theorem Stops.cut {p : Char → Bool} (stops : Stops p rest) (cut : tail <+: rest) : Stops p tail := by
  intro c others same
  obtain ⟨more, whole⟩ := cut
  exact stops c (others ++ more) (by rw [← whole, same, List.cons_append])

theorem takeWhile_cut {p : Char → Bool} {cs passed : List Char} (whole : cs = passed ++ rest)
    (dropped : rest = cs.dropWhile p) (cut : tail <+: rest) :
    (passed ++ tail).takeWhile p = passed ∧ (passed ++ tail).dropWhile p = tail
      ∧ passed = cs.takeWhile p := by
  have joined : passed ++ rest = cs.takeWhile p ++ rest := by
    rw [← whole, dropped, List.takeWhile_append_dropWhile]
  have taken : passed = cs.takeWhile p := List.append_cancel_right joined
  have all : ∀ c ∈ passed, p c = true := by
    rw [taken]
    exact List.all_eq_true.mp List.all_takeWhile
  have stops : Stops p tail := by
    rw [dropped] at cut
    exact (stops_dropWhile p cs).cut cut
  exact ⟨takeWhile_of_stops all stops, dropWhile_of_stops all stops, taken⟩

theorem head?_cut {c : Char} (other : rest.head? ≠ some c) (cut : tail <+: rest) :
    tail.head? ≠ some c := by
  intro same
  obtain ⟨others, rfl⟩ := List.head?_eq_some_iff.mp same
  obtain ⟨more, rfl⟩ := cut
  exact other rfl

theorem startsComment_cut (noComment : startsComment rest = false) (cut : tail <+: rest) :
    startsComment tail = false := by
  obtain ⟨more, rfl⟩ := cut
  unfold startsComment at noComment ⊢
  split
  · cases noComment
  · cases noComment
  · rfl

theorem dropWhile_cut (p : Char → Bool) (cut : tail <+: rest) :
    tail.dropWhile p <+: rest.dropWhile p := by
  obtain ⟨more, rfl⟩ := cut
  rw [List.dropWhile_append]
  split
  next ended =>
    rw [List.isEmpty_iff.mp ended]
    exact List.nil_prefix
  next => exact List.prefix_append _ more

/-- A run ends within what a text starts with, whatever stands behind that. -/
theorem takeWhile_append_of_mem {p : Char → Bool} {c : Char} {passed : List Char} (member : c ∈ passed)
    (stop : p c = false) (tail : List Char) : (passed ++ tail).takeWhile p = passed.takeWhile p := by
  induction passed with
  | nil => exact absurd member List.not_mem_nil
  | cons first others ih =>
    cases inside : p first with
    | false =>
      rw [List.cons_append, List.takeWhile_cons_of_neg (by simp [inside]),
        List.takeWhile_cons_of_neg (by simp [inside])]
    | true =>
      have later : c ∈ others := by
        rcases List.mem_cons.mp member with rfl | later
        · rw [inside] at stop
          cases stop
        · exact later
      rw [List.cons_append, List.takeWhile_cons_of_pos inside, List.takeWhile_cons_of_pos inside,
        ih later]

/-!
## Literals
-/

namespace Literal

theorem scanDigits_cut {cs passed : List Char} (found : scanDigits cs = .found () passed rest)
    (cut : tail <+: rest) : scanDigits (passed ++ tail) = .found () passed tail := by
  obtain ⟨nonempty, all⟩ := scanDigits_eq_found found
  have stops : Stops Char.isDigit rest := by
    simp only [scanDigits] at found
    split at found
    next => cases found
    next =>
      obtain ⟨-, -, rfl⟩ := Scan.found.inj found
      exact stops_dropWhile Char.isDigit cs
  exact scanDigits_append nonempty all (stops.cut cut)

/-- Where no exponent starts, none starts in a shorter text. -/
theorem scanExponent_cut_nil (found : scanExponent rest = .found () [] rest) (cut : tail <+: rest) :
    scanExponent tail = .found () [] tail := by
  cases tail with
  | nil => rfl
  | cons mark others =>
    obtain ⟨more, rfl⟩ := cut
    have notMark : ¬(mark = 'e' ∨ mark = 'E') := by
      intro isMark
      simp only [List.cons_append, scanExponent, if_pos isMark] at found
      split at found
      · split at found
        all_goals
          obtain ⟨later, -, same⟩ := Scan.after_eq_found found
          cases same
      · obtain ⟨later, -, same⟩ := Scan.after_eq_found found
        cases same
    simp only [scanExponent, if_neg notMark]

theorem scanExponent_cut {cs passed : List Char} (found : scanExponent cs = .found () passed rest)
    (cut : tail <+: rest) : scanExponent (passed ++ tail) = .found () passed tail := by
  have absent : cs = rest → passed = [] → scanExponent (passed ++ tail) = .found () passed tail := by
    rintro rfl rfl
    exact scanExponent_cut_nil found cut
  cases cs with
  | nil =>
    obtain ⟨-, nothing, ended⟩ := Scan.found.inj found
    exact absent ended nothing.symm
  | cons mark others =>
    simp only [scanExponent] at found
    split at found
    next isMark =>
      split at found
      next sign digits =>
        split at found
        next signed =>
          obtain ⟨later, scanned, rfl⟩ := Scan.after_eq_found found
          simp only [List.cons_append, List.nil_append, scanExponent, if_pos isMark, if_pos signed,
            scanDigits_cut scanned cut]
          rfl
        next unsigned =>
          obtain ⟨later, scanned, rfl⟩ := Scan.after_eq_found found
          obtain ⟨nonempty, all⟩ := scanDigits_eq_found scanned
          obtain ⟨d, others, rfl⟩ := List.exists_cons_of_ne_nil nonempty
          have notSign : ¬(d = '+' ∨ d = '-') := by
            rintro (rfl | rfl) <;> exact absurd (all _ List.mem_cons_self) (by decide)
          simp only [List.cons_append, List.nil_append, scanExponent, if_pos isMark, if_neg notSign]
          rw [← List.cons_append, scanDigits_cut scanned cut]
          rfl
      next =>
        obtain ⟨later, scanned, -⟩ := Scan.after_eq_found found
        cases scanned
    next =>
      obtain ⟨-, nothing, same⟩ := Scan.found.inj found
      exact absent same nothing.symm

theorem splitFraction_cut {cs fraction : List Char} (split : splitFraction cs = (fraction, rest))
    (cut : tail <+: rest) : splitFraction (fraction ++ tail) = (fraction, tail) := by
  unfold splitFraction at split
  split at split
  next d others =>
    split at split
    next digit =>
      obtain ⟨rfl, rfl⟩ := Prod.mk.inj split
      obtain ⟨taken, dropped, -⟩ := takeWhile_cut (p := Char.isDigit)
        List.takeWhile_append_dropWhile.symm rfl cut
      rw [List.takeWhile_cons_of_pos digit] at taken dropped ⊢
      simp only [List.cons_append, splitFraction, if_pos digit] at taken dropped ⊢
      rw [taken, dropped]
    next notDigit =>
      obtain ⟨rfl, rfl⟩ := Prod.mk.inj split
      obtain ⟨more, whole⟩ := cut
      unfold splitFraction
      split
      next first others same =>
        rw [List.nil_append] at same
        rw [same] at whole
        obtain ⟨-, whole⟩ := List.cons.inj whole
        obtain ⟨rfl, -⟩ := List.cons.inj whole
        rw [if_neg notDigit, same]
      next => rfl
  next absent =>
    obtain ⟨rfl, rfl⟩ := Prod.mk.inj split
    obtain ⟨more, whole⟩ := cut
    unfold splitFraction
    split
    next first others same =>
      rw [List.nil_append] at same
      rw [same] at whole
      exact absurd whole.symm (absent _ _)
    next => rfl

theorem scanUnsigned_cut {cs passed : List Char} (found : scanUnsigned cs = .found () passed rest)
    (cut : tail <+: rest) : scanUnsigned (passed ++ tail) = .found () passed tail := by
  unfold scanUnsigned at found
  split at found
  next => cases found
  next whole afterWhole scanned =>
    cases split : splitFraction afterWhole with
    | mk fraction others =>
      simp only [split] at found
      obtain ⟨exponent, exponentFound, rfl⟩ := Scan.after_eq_found found
      -- Each part is cut in front of what is left of the parts behind it.
      have othersWhole := whole_scanExponent others
      rw [exponentFound, Scan.whole_found] at othersWhole
      have fractionWhole := splitFraction_append afterWhole
      rw [split] at fractionWhole
      have cutExponent : exponent ++ tail <+: others := by
        rw [← othersWhole]
        exact (List.prefix_append_right_inj exponent).mpr cut
      have cutFraction : fraction ++ (exponent ++ tail) <+: afterWhole := by
        rw [← fractionWhole]
        exact (List.prefix_append_right_inj fraction).mpr cutExponent
      simp only [List.append_assoc, scanUnsigned, scanDigits_cut scanned cutFraction,
        splitFraction_cut split cutExponent, scanExponent_cut exponentFound cut, Scan.after]

theorem scanNumber_cut {cs passed : List Char} (found : scanNumber cs = .found () passed rest)
    (cut : tail <+: rest) : scanNumber (passed ++ tail) = .found () passed tail := by
  unfold scanNumber at found
  split at found
  next others =>
    obtain ⟨later, scanned, rfl⟩ := Scan.after_eq_found found
    simp only [List.cons_append, List.nil_append, scanNumber, scanUnsigned_cut scanned cut]
    rfl
  next =>
    have again := scanUnsigned_cut found cut
    obtain ⟨digit, later, rfl, isDigit⟩ := scanUnsigned_eq_found found
    rw [scanNumber]
    · exact again
    · rintro others same
      obtain ⟨rfl, -⟩ := List.cons.inj same
      exact absurd isDigit (by decide)

theorem stops_of_afterWord? {word : String} {cs : List Char} (after : afterWord? word cs = some rest) :
    Stops isIdentifierChar rest := by
  intro c others same
  unfold afterWord? at after
  split at after
  next =>
    dsimp only at after
    split at after
    next => cases after
    next stopped =>
      obtain rfl := Option.some.inj after
      simpa [same] using stopped
  next => cases after

theorem scanWord_cut {cs passed : List Char} {literal : Literal}
    (found : scanWord cs = .found literal passed rest) (cut : tail <+: rest) :
    scanWord (passed ++ tail) = .found literal passed tail := by
  have again : ∀ {word : String}, afterWord? word cs = some rest →
      afterWord? word (word.toList ++ tail) = some tail :=
    fun after => afterWord?_append ((stops_of_afterWord? after).cut cut)
  unfold scanWord at found
  split at found
  next after =>
    obtain ⟨rfl, rfl, rfl⟩ := Scan.found.inj found
    simp only [scanWord, again after]
  next =>
    split at found
    next after =>
      obtain ⟨rfl, rfl, rfl⟩ := Scan.found.inj found
      have notTrue : afterWord? "true" ("false".toList ++ tail) = none := rfl
      simp only [scanWord, notTrue, again after]
    next =>
      split at found
      next after =>
        obtain ⟨rfl, rfl, rfl⟩ := Scan.found.inj found
        have notTrue : afterWord? "true" ("null".toList ++ tail) = none := rfl
        have notFalse : afterWord? "false" ("null".toList ++ tail) = none := rfl
        simp only [scanWord, notTrue, notFalse, again after]
      next => cases found

/-- A literal is scanned from a text that is cut anywhere behind it. -/
theorem scan_cut {cs passed : List Char} {literal : Literal}
    (found : scan cs = .found literal passed rest) (cut : tail <+: rest) :
    scan (passed ++ tail) = .found literal passed tail := by
  cases cs with
  | nil => cases found
  | cons c others =>
    have whole := whole_scan (c :: others)
    rw [found, Scan.whole_found] at whole
    have nonempty := passed_ne_nil_of_scan found
    obtain ⟨first, later, rfl⟩ := List.exists_cons_of_ne_nil nonempty
    obtain ⟨rfl, -⟩ := List.cons.inj whole
    simp only [scan] at found
    split at found
    next quoted =>
      obtain ⟨contents, mapped, same⟩ := Scan.after_eq_found found
      obtain ⟨inner, scanned, rfl⟩ := Scan.map_eq_found mapped
      obtain ⟨-, rfl⟩ := List.cons.inj same
      simp only [List.cons_append, scan, if_pos quoted]
      rw [scanContents_passed scanned]
      rfl
    next notQuoted =>
      split at found
      next number =>
        split at found
        next scanned =>
          obtain ⟨rfl, rfl, rfl⟩ := Scan.found.inj found
          have again := scanNumber_cut scanned cut
          rw [List.cons_append] at again ⊢
          simp only [scan, if_neg notQuoted, if_pos number, again]
        next => cases found
      next notNumber =>
        have again := scanWord_cut found cut
        rw [List.cons_append] at again ⊢
        simp only [scan, if_neg notQuoted, if_neg notNumber, again]

end Literal

end ApiDef.Text
