import ApiDef.Proofs.Schema.Spelling
set_option autoImplicit false

/-!
# Shapes and the types they come from

A type that nests within the default limit comes back from its shape. A deeper one comes back as a
name that is spelled like it, and that name has the same shape, so going back and forth once more
changes nothing. A shape comes back from its type if it is no list of lists: a type has one list mark,
so of several levels of lists it keeps one.
-/

namespace ApiDef

namespace TypeRef

theorem isReadable_element {type : TypeRef} (readable : type.isReadable = true) :
    type.element.isReadable = true := by
  cases type
  exact readable

theorem toTypeRef_ofElement {type : TypeRef} (readable : type.isReadable = true) :
    (Shape.ofElement type).toTypeRef = type.element := by
  have read := read_text_of_isReadable (isReadable_element readable)
  unfold Shape.ofElement
  split
  next primitive =>
    obtain ⟨name, isList, generics⟩ := type
    rw [Bool.and_eq_true, List.isEmpty_iff] at primitive
    obtain ⟨bare, -⟩ := primitive
    obtain rfl : generics = [] := bare
    rfl
  next =>
    rw [Shape.toTypeRef, read]
    rfl

/-- A type whose spelling can be read comes back from its shape. -/
theorem respelled_eq {type : TypeRef} (readable : type.isReadable = true) :
    type.respelled = type := by
  have element := toTypeRef_ofElement readable
  obtain ⟨name, isList, generics⟩ := type
  unfold respelled Shape.ofTypeRef
  cases isList with
  | true => exact congrArg asList element
  | false => exact element

/-!
## Types that are too deep
-/

theorem not_isPrimitiveName_text {type : TypeRef} (generic : type.generics ≠ []) :
    Shape.isPrimitiveName type.text = false := by
  -- The names of built-in types have no angle brackets.
  have angle : '<' ∈ type.text.toList := by
    obtain ⟨name, isList, generics⟩ := type
    obtain ⟨first, others, rfl⟩ := List.exists_cons_of_ne_nil generic
    simp [text]
  have plain : ∀ name ∈ objectName :: builtinTypes, '<' ∉ name.toList := by decide
  cases primitive : Shape.isPrimitiveName type.text with
  | false => rfl
  | true =>
    rw [Shape.isPrimitiveName, Bool.or_eq_true, decide_eq_true_eq, List.contains_iff_mem,
      ← List.mem_cons] at primitive
    exact absurd angle (plain _ primitive)

theorem isReadable_of_generics_nil {type : TypeRef} (valid : type.isWellFormed = true)
    (bare : type.generics = []) : type.isReadable = true := by
  obtain ⟨name, isList, generics⟩ := type
  obtain rfl : generics = [] := bare
  rw [isReadable, valid]
  rfl

theorem ofElement_eq_reference {type : TypeRef} (generic : type.generics ≠ []) :
    Shape.ofElement type = .reference type.element.text := by
  rw [Shape.ofElement, List.isEmpty_eq_false_iff.mpr generic]
  rfl

theorem ofElement_simple (name : String) :
    Shape.ofElement (.simple name)
      = if Shape.isPrimitiveName name then .primitive name else .reference name := by
  have text : (simple name).element.text = name := String.append_empty
  rw [Shape.ofElement, text]
  rfl

/-- A name that is spelled like a type has the shape of that type. -/
theorem ofElement_simple_text (type : TypeRef) :
    Shape.ofElement (.simple type.element.text) = Shape.ofElement type := by
  by_cases bare : type.generics = []
  · obtain ⟨name, isList, generics⟩ := type
    obtain rfl : generics = [] := bare
    have text : (mk name isList []).element.text = name := String.append_empty
    rw [text, ofElement_simple, Shape.ofElement, text]
    rfl
  · have generic : type.element.generics ≠ [] := by
      cases type
      exact bare
    rw [ofElement_simple, not_isPrimitiveName_text generic, ofElement_eq_reference bare]
    rfl

theorem ofTypeRef_asList (type : TypeRef) :
    Shape.ofTypeRef type.asList = .list (Shape.ofElement type) := by
  cases type
  rfl

theorem ofElement_element (type : TypeRef) : Shape.ofElement type.element = Shape.ofElement type := by
  cases type
  rfl

theorem isList_element (type : TypeRef) : type.element.isList = false := by
  cases type
  rfl

/-- The shape of a type is read back, or stays a name that is spelled like the type. -/
theorem toTypeRef_ofElement_or {type : TypeRef} (valid : type.isWellFormed = true) :
    (Shape.ofElement type).toTypeRef = type.element
      ∨ (Shape.ofElement type).toTypeRef = .simple type.element.text := by
  rw [← ofElement_simple_text, ofElement_simple]
  split
  next => exact .inr rfl
  next =>
    rw [Shape.toTypeRef]
    rcases read_text (isWellFormed_element valid) with ⟨-, found⟩ | ⟨-, error, failed, -⟩
    · rw [found]
      exact .inl rfl
    · rw [failed]
      exact .inr rfl

/-- The shape of what comes back from the shape of a type. -/
theorem ofElement_toTypeRef {type : TypeRef} (valid : type.isWellFormed = true) :
    (Shape.ofElement type).toTypeRef.isList = false
      ∧ Shape.ofElement (Shape.ofElement type).toTypeRef = Shape.ofElement type := by
  rcases toTypeRef_ofElement_or valid with readBack | staysName
  · rw [readBack]
    exact ⟨isList_element type, ofElement_element type⟩
  · rw [staysName]
    exact ⟨rfl, ofElement_simple_text type⟩

/-- What comes back from the shape of a type has that shape. -/
theorem ofTypeRef_respelled {type : TypeRef} (valid : type.isWellFormed = true) :
    Shape.ofTypeRef type.respelled = Shape.ofTypeRef type := by
  obtain ⟨single, same⟩ := ofElement_toTypeRef valid
  cases isList : type.isList with
  | true =>
    have shape : Shape.ofTypeRef type = .list (Shape.ofElement type) := by
      rw [Shape.ofTypeRef, isList, if_pos rfl]
    rw [respelled, shape, Shape.toTypeRef, ofTypeRef_asList, same]
  | false =>
    have shape : Shape.ofTypeRef type = Shape.ofElement type := by
      rw [Shape.ofTypeRef, isList]
      rfl
    rw [respelled, shape, Shape.ofTypeRef, single]
    exact same

end TypeRef

/-!
## Shapes that come back from their types
-/

namespace Shape

/-- A shape made of the names of built-in types, references to other names, and lists. -/
def isNamed : Shape → Bool
  | primitive name => isPrimitiveName name
  | reference target => Text.isIdentifier target && !isPrimitiveName target
  | list element => element.isNamed

/-- How many lists stand around what is no list. -/
def levels : Shape → Nat
  | list element => element.levels + 1
  | primitive _ => 0
  | reference _ => 0

/-- What stands in all the lists. -/
def innermost : Shape → Shape
  | list element => element.innermost
  | primitive name => primitive name
  | reference target => reference target

theorem levels_innermost (shape : Shape) : shape.innermost.levels = 0 := by
  induction shape with
  | primitive name => rfl
  | reference target => rfl
  | list element ih => exact ih

theorem innermost_eq_self_iff {shape : Shape} : shape.innermost = shape ↔ shape.levels = 0 := by
  cases shape with
  | primitive name => exact iff_of_true rfl rfl
  | reference target => exact iff_of_true rfl rfl
  | list element =>
    refine iff_of_false (fun same => ?_) (Nat.succ_ne_zero _)
    have none := levels_innermost (list element)
    rw [same] at none
    exact Nat.succ_ne_zero _ none

/-- A name and a list mark are all that the type of such a shape keeps. -/
theorem exists_toTypeRef_of_isNamed {shape : Shape} (named : shape.isNamed = true) :
    ∃ name, shape.toTypeRef = .mk name shape.isList []
      ∧ ofElement (.simple name) = shape.innermost := by
  induction shape with
  | primitive name =>
    refine ⟨name, rfl, ?_⟩
    rw [TypeRef.ofElement_simple]
    exact if_pos named
  | reference target =>
    rw [isNamed, Bool.and_eq_true, Bool.not_eq_true'] at named
    obtain ⟨valid, notPrimitive⟩ := named
    have validType : (TypeRef.simple target).isWellFormed = true := by
      rw [TypeRef.simple, TypeRef.isWellFormed, valid]
      rfl
    have text : (TypeRef.simple target).text = target := String.append_empty
    have read := TypeRef.read_text_of_isReadable (TypeRef.isReadable_of_generics_nil validType rfl)
    rw [text] at read
    refine ⟨target, ?_, ?_⟩
    · rw [toTypeRef, read]
      rfl
    · rw [TypeRef.ofElement_simple, notPrimitive]
      rfl
  | list element ih =>
    -- The list mark of the element, if it had one, is the list mark of the list.
    obtain ⟨name, found, inner⟩ := ih named
    refine ⟨name, ?_, inner⟩
    rw [toTypeRef, found]
    rfl

/-- A shape comes back from its type with one level of lists for all that it had, so it is the same
exactly if it had no more than one. -/
theorem ofTypeRef_toTypeRef_of_isNamed {shape : Shape} (named : shape.isNamed = true) :
    ofTypeRef shape.toTypeRef = (if shape.isList then list shape.innermost else shape.innermost)
      ∧ (ofTypeRef shape.toTypeRef = shape ↔ shape.levels ≤ 1) := by
  have comesBack : ofTypeRef shape.toTypeRef
      = if shape.isList then list shape.innermost else shape.innermost := by
    obtain ⟨name, found, inner⟩ := exists_toTypeRef_of_isNamed named
    rw [found, ← inner]
    rfl
  refine ⟨comesBack, ?_⟩
  rw [comesBack]
  cases shape with
  | primitive name => exact iff_of_true rfl (Nat.zero_le 1)
  | reference target => exact iff_of_true rfl (Nat.zero_le 1)
  | list element =>
    rw [isList, if_pos rfl, list.injEq, innermost, innermost_eq_self_iff, levels]
    omega

theorem ofTypeRef_toTypeRef_of_isNamed_users :
    ofTypeRef (list (reference "User")).toTypeRef = list (reference "User")
      ∧ ofTypeRef (list (list (list (reference "User")))).toTypeRef = list (reference "User") := by
  constructor
  · exact (ofTypeRef_toTypeRef_of_isNamed (by decide)).2.mpr (by decide)
  · exact (ofTypeRef_toTypeRef_of_isNamed (by decide)).1

/-- A list of lists does not come back. -/
theorem ofTypeRef_toTypeRef_ne_nestedList :
    (list (list (primitive "string"))).isNamed = true
      ∧ ofTypeRef (list (list (primitive "string"))).toTypeRef ≠ list (list (primitive "string")) := by
  decide

end Shape

end ApiDef
