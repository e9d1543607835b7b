import ApiDef.Proofs.Reader.Parts
import ApiDef.Proofs.Reader.Words
set_option autoImplicit false

/-!
# Reading types back

A type is read back from its text wherever nothing stands behind it that could go on with it, and
exactly if its generic arguments fit into the levels that are left.
-/

namespace ApiDef

open Text

namespace TypeRef

theorem toList_textOthers (others : List TypeRef) :
    (textOthers others).toList = others.flatMap fun type => ',' :: ' ' :: type.text.toList := by
  induction others with
  | nil => rfl
  | cons type others ih =>
    rw [textOthers, String.toList_append, String.toList_append, ih, List.flatMap_cons]
    rfl

theorem toList_text (name : String) (isList : Bool) (generics : List TypeRef) :
    (mk name isList generics).text.toList = name.toList
      ++ (Reader.bracketed '<' '>' (fun type => type.text.toList) generics
        ++ (listMark isList).toList) := by
  cases generics with
  | nil => simp [text, Reader.bracketed]
  | cons first others => simp [text, Reader.bracketed, toList_textOthers]

end TypeRef

namespace Reader

/-- Nothing that could go on with a type stands at the start of a text. -/
def EndsType (tail : List Char) : Prop :=
  Stops isIdentifierChar tail ∧ tail.head? ≠ some '<' ∧ tail.head? ≠ some '['

theorem endsType_nil : EndsType [] :=
  ⟨stops_nil isIdentifierChar, by decide, by decide⟩

theorem endsType_cons {c : Char} (ends : isIdentifierChar c = false ∧ c ≠ '<' ∧ c ≠ '[')
    (others : List Char) : EndsType (c :: others) := by
  obtain ⟨notWord, notAngle, notBracket⟩ := ends
  exact ⟨stops_cons notWord others, head?_cons_ne notAngle others, head?_cons_ne notBracket others⟩

theorem endsType_of_endsItem {close : Char} (closeEnds : ∀ tail, EndsType (close :: tail))
    {tail : List Char} (ends : EndsItem close tail) : EndsType tail := by
  obtain ⟨others, same | same⟩ := ends
  · rw [same]
    exact endsType_cons (by decide) others
  · rw [same]
    exact closeEnds others

/-- A type starts with its name. -/
theorem exists_of_typeText {type : TypeRef} (valid : type.isWellFormed = true) (tail : List Char) :
    ∃ first others, type.text.toList ++ tail = first :: others ∧ isIdentifierStart first = true := by
  obtain ⟨name, isList, generics⟩ := type
  simp only [TypeRef.isWellFormed, Bool.and_eq_true] at valid
  rw [TypeRef.toList_text, List.append_assoc]
  exact isIdentifier_append valid.1 _

theorem solid_typeText {type : TypeRef} (valid : type.isWellFormed = true) (tail : List Char) :
    Solid (type.text.toList ++ tail) := by
  obtain ⟨first, others, same, starts⟩ := exists_of_typeText valid tail
  rw [same]
  exact solid_of_isIdentifierChar (isIdentifierChar_of_isIdentifierStart starts) others

theorem stops_listMark (isList : Bool) {tail : List Char} (stops : Stops isIdentifierChar tail) :
    Stops isIdentifierChar ((TypeRef.listMark isList).toList ++ tail) := by
  cases isList with
  | true => exact stops_cons (by decide) _
  | false => exact stops

theorem yields_typeArguments {inner : Unit → Advancing TypeRef} {fits : TypeRef → Prop}
    {generics : List TypeRef}
    (reads : ∀ type ∈ generics, ReadsItem (inner ()) '>' id (fun type => type.text.toList) fits type)
    {start : Cursor} {tail : List Char}
    (rest : start.rest = bracketed '<' '>' (fun type => type.text.toList) generics ++ tail)
    (notAngle : tail.head? ≠ some '<') :
    (typeArguments inner).Yields start (∀ type ∈ generics, fits type) (Gives generics tail) := by
  cases generics with
  | nil =>
    refine yields_after (run_eat_other (by rw [rest]; exact notAngle)) ?_
    exact (yields_pure ⟨rfl, rest⟩).of_iff (by simp)
  | cons first others =>
    have opened : start.rest = '<' :: ([] ++ (first.text.toList
        ++ (others.flatMap (fun type => ',' :: ' ' :: type.text.toList) ++ '>' :: tail))) := by
      simp [rest, bracketed]
    refine yields_after (run_eat opened) ?_
    have closeSolid : ∀ tail, Solid ('>' :: tail) := solid_cons (by decide)
    refine (yields_separated skipsGaps_skipBlanks closeSolid (by decide) reads blank_nil rfl).mono ?_
    intro values after facts
    rw [List.map_id] at facts
    exact facts

theorem yields_listMark {isList : Bool} {start : Cursor} {tail : List Char}
    (rest : start.rest = (TypeRef.listMark isList).toList ++ tail)
    (notBracket : tail.head? ≠ some '[') :
    listMark.Yields start True (Gives isList tail) := by
  cases isList with
  | false =>
    refine yields_after (run_eat_other (by rw [rest]; exact notBracket)) ?_
    exact yields_pure ⟨rfl, rest⟩
  | true =>
    refine yields_after (run_eat rest) ?_
    refine yields_after (run_require rfl) ?_
    exact yields_pure ⟨rfl, rfl⟩

theorem yields_typeRef (limit levels : Nat) {type : TypeRef} (valid : type.isWellFormed = true)
    {start : Cursor} {tail : List Char} (rest : start.rest = type.text.toList ++ tail)
    (ends : EndsType tail) :
    (typeRef limit levels).toReader.Yields start (type.nesting < levels) (Gives type tail) := by
  -- Each list of arguments takes one of the levels, whatever stands beside it.
  induction levels generalizing type start tail with
  | zero => exact yields_tooDeep (Nat.not_lt_zero _)
  | succ levels ih =>
    obtain ⟨name, isList, generics⟩ := type
    simp only [TypeRef.isWellFormed, Bool.and_eq_true, TypeRef.areWellFormed_iff] at valid
    obtain ⟨validName, validGenerics⟩ := valid
    have fits : (∀ type ∈ generics, type.nesting < levels)
        ↔ (TypeRef.mk name isList generics).nesting < levels + 1 := by
      rw [TypeRef.nesting, Nat.lt_succ_iff, TypeRef.nestingOfAll_le_iff]
    have whole : start.rest = name.toList
        ++ (bracketed '<' '>' (fun type => type.text.toList) generics
          ++ ((TypeRef.listMark isList).toList ++ tail)) := by
      rw [rest, TypeRef.toList_text, List.append_assoc, List.append_assoc]
    have notWord : isIdentifierChar '<' = false := by decide
    have stops := stops_bracketed notWord '>' (fun type => type.text.toList) generics
      (stops_listMark isList ends.1)
    change (typeRefLevel fun _ => typeRef limit levels).Yields _ _ _
    rw [typeRefLevel_eq]
    refine yields_after (run_identifier whole validName stops) ?_
    have reads : ∀ type ∈ generics, ReadsItem (typeRef limit levels) '>' id
        (fun type => type.text.toList) (fun type => type.nesting < levels) type := by
      intro type member
      refine ⟨solid_typeText (validGenerics type member), fun start tail rest endsItem => ?_⟩
      have closeEnds : ∀ tail, EndsType ('>' :: tail) :=
        endsType_cons (by decide)
      exact ih (validGenerics type member) rest (endsType_of_endsItem closeEnds endsItem)
    refine Yields.finally ((yields_typeArguments reads rfl ?_).of_iff fits) ?_
    · cases isList with
      | true => exact head?_cons_ne (by decide) _
      | false => exact ends.2.1
    · intro found after got
      obtain ⟨rfl, afterRest⟩ := got
      refine (yields_listMark afterRest ends.2.2).finally fun mark final gotMark => ?_
      obtain ⟨rfl, finalRest⟩ := gotMark
      exact yields_pure ⟨rfl, finalRest⟩

end Reader

end ApiDef
