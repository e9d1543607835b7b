import ApiDef.Proofs.Schema.Shapes
set_option autoImplicit false

/-!
# Shapes and the texts that name them

The text of a type names the shape of the type: taking `[]` off the end of the text and looking at the
type come to the same.
-/

namespace ApiDef

open Text

namespace TypeRef

/-- Neither a blank nor a list mark stands at the end of a type that is no list. -/
theorem exists_last_of_element {type : TypeRef} (valid : type.isWellFormed = true) :
    ∃ front c, type.element.text.toList = front ++ [c] ∧ isBlank c = false ∧ c ≠ ']' := by
  obtain ⟨name, isList, generics⟩ := type
  rw [isWellFormed, Bool.and_eq_true] at valid
  rw [element, toList_text]
  cases generics with
  | nil =>
    obtain ⟨front, c, same, inside⟩ := exists_last_of_isIdentifier valid.1
    have notMark : c ≠ ']' := by
      rintro rfl
      exact absurd inside (by decide)
    refine ⟨front, c, ?_, Reader.not_isBlank_of_isIdentifierChar inside, notMark⟩
    rw [← same]
    exact List.append_nil _
  | cons first others =>
    refine ⟨name.toList ++ '<' :: (first.text.toList
      ++ others.flatMap fun type => ',' :: ' ' :: type.text.toList), '>', ?_, by decide, by decide⟩
    simp [Reader.bracketed, listMark]

end TypeRef

namespace Shape

theorem ofReversed_marked {reversed rest : List Char}
    (marked : withoutListMark? (reversed.dropWhile isBlank) = some rest) :
    ofReversed reversed = list (ofReversed rest) := by
  rw [ofReversed]
  split
  next found =>
    obtain rfl := Option.some.inj (found.symm.trans marked)
    rfl
  next missing => simp [marked] at missing

theorem ofReversed_unmarked {reversed : List Char}
    (unmarked : withoutListMark? (reversed.dropWhile isBlank) = none) :
    ofReversed reversed
      = (let name := String.ofList (trimStart (reversed.dropWhile isBlank).reverse)
        if isPrimitiveName name then primitive name else reference name) := by
  rw [ofReversed]
  split
  next found => simp [unmarked] at found
  next => rfl

theorem withoutListMark?_cons {c : Char} (notMark : c ≠ ']') (others : List Char) :
    withoutListMark? (c :: others) = none := by
  unfold withoutListMark?
  split
  next same => exact absurd (List.cons.inj same).1 notMark
  next => rfl

theorem ofReversed_element {type : TypeRef} (valid : type.isWellFormed = true) :
    ofReversed type.element.text.toList.reverse = ofElement type := by
  -- Nothing is taken off the end, and nothing is trimmed at either end.
  obtain ⟨front, c, last, solid, notMark⟩ := TypeRef.exists_last_of_element valid
  have trimmed : type.element.text.toList.reverse.dropWhile isBlank
      = type.element.text.toList.reverse := by
    rw [last, List.reverse_append]
    exact List.dropWhile_cons_of_neg (by simp [solid])
  have unmarked : withoutListMark? (type.element.text.toList.reverse.dropWhile isBlank) = none := by
    rw [trimmed, last, List.reverse_append]
    exact withoutListMark?_cons notMark _
  have starts := (Reader.solid_typeText (TypeRef.isWellFormed_element valid) []).1
  rw [List.append_nil] at starts
  rw [ofReversed_unmarked unmarked, trimmed, List.reverse_reverse, trimStart_of_stops starts,
    String.ofList_toList, ← TypeRef.ofElement_simple_text, TypeRef.ofElement_simple]

/-- The text of a type names the shape of that type. -/
theorem ofText_text_typeRef {type : TypeRef} (valid : type.isWellFormed = true) :
    ofText type.text = ofTypeRef type := by
  have element := ofReversed_element valid
  rw [ofText, TypeRef.text_eq_element_append, String.toList_append, List.reverse_append, ofTypeRef]
  cases type.isList with
  | true =>
    rw [if_pos rfl, ← element]
    exact ofReversed_marked rfl
  | false =>
    rw [if_neg Bool.false_ne_true, ← element]
    rfl

theorem text_ofElement (type : TypeRef) : (ofElement type).text = type.element.text := by
  rw [← TypeRef.ofElement_simple_text, TypeRef.ofElement_simple]
  split <;> rfl

theorem text_ofTypeRef (type : TypeRef) : (ofTypeRef type).text = type.text := by
  rw [TypeRef.text_eq_element_append, ofTypeRef]
  cases type.isList with
  | true => rw [if_pos rfl, text, text_ofElement]
  | false =>
    rw [if_neg Bool.false_ne_true, text_ofElement]
    exact String.append_empty.symm

/-- Whether a shape comes from a type or from its text, it is the same shape: it is spelled like the type,
and the type comes back from it if the type nests within the limit. -/
theorem ofText_eq_ofTypeRef (type : TypeRef) (valid : type.isWellFormed = true)
    (fits : type.nesting ≤ Options.defaultNestingDepth) :
    ofText type.text = ofTypeRef type
      ∧ (ofText type.text).text = type.text
      ∧ (ofText type.text).toTypeRef = type := by
  have same := ofText_text_typeRef valid
  rw [same]
  exact ⟨rfl, text_ofTypeRef type, TypeRef.respelled_eq (TypeRef.isReadable_iff.mpr ⟨valid, fits⟩)⟩

/-- A list of a generic type that has the name of a built-in one. -/
def dateTable : TypeRef :=
  .mk "date" true [.mk "List" true [.simple "object"], .simple "string"]

theorem ofText_eq_ofTypeRef_dateTable :
    ofText "date<List<object>[], string>[]" = list (reference "date<List<object>[], string>")
      ∧ (list (reference "date<List<object>[], string>")).toTypeRef = dateTable := by
  obtain ⟨same, -, back⟩ := ofText_eq_ofTypeRef dateTable (by decide) (by decide)
  rw [same] at back
  exact ⟨same, back⟩

end Shape

end ApiDef
