import ApiDef.Layout
set_option autoImplicit false

/-!
# Well-formed entities

The names, tags, defaults and bodies that a text can spell, and how deep bodies and generic arguments
nest. Nothing is said about types that are known or tags that are allowed.
-/

namespace ApiDef

open Text

namespace TypeRef

mutual

def isWellFormed : TypeRef → Bool
  | mk name _ generics => isIdentifier name && areWellFormed generics

def areWellFormed : List TypeRef → Bool
  | [] => true
  | type :: others => isWellFormed type && areWellFormed others

end

mutual

/-- How many levels of generic arguments a type has. -/
def nesting : TypeRef → Nat
  | mk _ _ generics => nestingOfAll generics

def nestingOfAll : List TypeRef → Nat
  | [] => 0
  | type :: others => max (nesting type + 1) (nestingOfAll others)

end

theorem areWellFormed_iff {types : List TypeRef} :
    areWellFormed types = true ↔ ∀ type ∈ types, type.isWellFormed = true := by
  induction types with
  | nil => simp [areWellFormed]
  | cons type others ih => simp [areWellFormed, ih]

theorem nestingOfAll_le_iff {types : List TypeRef} {levels : Nat} :
    nestingOfAll types ≤ levels ↔ ∀ type ∈ types, type.nesting < levels := by
  induction types with
  | nil => simp [nestingOfAll]
  | cons type others ih => simp only [nestingOfAll, Nat.max_le, ih, Nat.succ_le_iff, List.forall_mem_cons]

theorem eq_of_isObject {type : TypeRef} (isObject : type.isObject = true) :
    type = mk objectName type.isList [] := by
  obtain ⟨name, isList, generics⟩ := type
  rw [TypeRef.isObject, Bool.and_eq_true, List.isEmpty_iff] at isObject
  obtain ⟨sameName, noGenerics⟩ := isObject
  have named : name = objectName := of_decide_eq_true sameName
  have bare : generics = [] := noGenerics
  rw [named, bare]
  rfl

end TypeRef

/-- A tag is named by `@` and an identifier, and its options have identifiers for keys. -/
def Tag.isWellFormed (tag : Tag) : Bool :=
  (match tag.name.toList with
    | '@' :: name => isIdentifier (String.ofList name)
    | _ => false)
    && tag.options.entries.all fun entry => isIdentifier entry.1

/-- The key of an option is an identifier. -/
def Reader.TagItem.isWellFormed : Reader.TagItem → Bool
  | .argument _ => true
  | .option key _ => isIdentifier key

def isLiteral (text : String) : Bool :=
  match Literal.scan text.toList with
  | .found _ _ [] => true
  | _ => false

def Field.isWellFormed (field : Field) : Bool :=
  isIdentifier field.name && field.type.isWellFormed && field.tags.all Tag.isWellFormed
    && field.defaultValue.all isLiteral

namespace Property

mutual

/-- Only an inline object, or a list of them, has properties of its own. -/
def isWellFormed : Property → Bool
  | plain field => field.isWellFormed
  | inline field properties =>
    field.isWellFormed && field.type.isObject && areWellFormed properties

def areWellFormed : List Property → Bool
  | [] => true
  | property :: others => isWellFormed property && areWellFormed others

end

mutual

/-- How many levels a property adds to the body that it stands in. -/
def nesting : Property → Nat
  | plain field => field.type.nesting
  | inline _ properties => bodyNesting properties

/-- How many levels a body has; the body itself is one. -/
def bodyNesting : List Property → Nat
  | [] => 1
  | property :: others => max (nesting property + 1) (bodyNesting others)

end

theorem areWellFormed_iff {properties : List Property} :
    areWellFormed properties = true ↔ ∀ property ∈ properties, property.isWellFormed = true := by
  induction properties with
  | nil => simp [areWellFormed]
  | cons property others ih => simp [areWellFormed, ih]

theorem bodyNesting_pos (properties : List Property) : 0 < bodyNesting properties := by
  induction properties with
  | nil => simp [bodyNesting]
  | cons property others ih => exact Nat.lt_of_lt_of_le ih (Nat.le_max_right _ _)

theorem bodyNesting_le_iff {properties : List Property} {levels : Nat} :
    bodyNesting properties ≤ levels + 1 ↔ ∀ property ∈ properties, property.nesting ≤ levels := by
  induction properties with
  | nil => simp [bodyNesting]
  | cons property others ih => simp only [bodyNesting, Nat.max_le, ih, Nat.add_le_add_iff_right, List.forall_mem_cons]

theorem isWellFormed_field (property : Property) (valid : property.isWellFormed = true) :
    isIdentifier property.field.name = true
      ∧ (∀ tag ∈ property.field.tags, tag.isWellFormed = true)
      ∧ property.field.defaultValue.all isLiteral = true := by
  have validField : property.field.isWellFormed = true := by
    cases property with
    | plain field => exact valid
    | inline field properties =>
      rw [isWellFormed, Bool.and_eq_true, Bool.and_eq_true] at valid
      exact valid.1.1
  simp only [Field.isWellFormed, Bool.and_eq_true, List.all_eq_true] at validField
  exact ⟨validField.1.1.1, validField.1.2, validField.2⟩

theorem isWellFormed_mapField_description (property : Property) (description : Option String) :
    (property.mapField fun field => { field with description }).isWellFormed
      = property.isWellFormed := by
  cases property <;> rfl

theorem nesting_mapField_description (property : Property) (description : Option String) :
    (property.mapField fun field => { field with description }).nesting = property.nesting := by
  cases property <;> rfl

end Property

def Parameter.isWellFormed (parameter : Parameter) : Bool :=
  isIdentifier parameter.name && parameter.type.isWellFormed
    && parameter.tags.all Tag.isWellFormed

def Method.nesting (method : Method) : Nat :=
  method.parameters.foldr (fun parameter deepest => max parameter.type.nesting deepest)
    method.returnType.nesting

theorem Method.nesting_le_iff {method : Method} {levels : Nat} :
    method.nesting ≤ levels ↔
      (∀ parameter ∈ method.parameters, parameter.type.nesting ≤ levels)
        ∧ method.returnType.nesting ≤ levels := by
  unfold Method.nesting
  induction method.parameters with
  | nil => simp
  | cons parameter others ih =>
    simp only [List.foldr_cons, Nat.max_le, ih, and_assoc, List.forall_mem_cons]

namespace Entity

/-- The names, tags and bodies of an entity can be spelled. What starts with the reserved word is an
enumeration, so nothing else may have it for a name. -/
def isWellFormed : Entity → Bool
  | comment text => !text.toList.contains '\n'
  | enumeration declared =>
    isIdentifier declared.name && declared.tags.all Tag.isWellFormed
      && declared.values.all isIdentifier
  | dataType declared =>
    isIdentifier declared.name && declared.name ≠ "enum" && declared.tags.all Tag.isWellFormed
      && Property.areWellFormed declared.properties
  | method declared =>
    isIdentifier declared.name && declared.name ≠ "enum" && declared.tags.all Tag.isWellFormed
      && declared.parameters.all Parameter.isWellFormed && declared.returnType.isWellFormed

theorem isWellFormed_comment_iff {text : String} :
    (comment text).isWellFormed = true ↔ '\n' ∉ text.toList := by
  simp [isWellFormed]

theorem isWellFormed_tags (entity : Entity) (notComment : entity.isComment = false)
    (valid : entity.isWellFormed = true) : ∀ tag ∈ entity.tags, tag.isWellFormed = true := by
  cases entity with
  | comment text => cases notComment
  | enumeration declared =>
    simp only [isWellFormed, Bool.and_eq_true, List.all_eq_true] at valid
    exact valid.1.2
  | dataType declared =>
    simp only [isWellFormed, Bool.and_eq_true, List.all_eq_true] at valid
    exact valid.1.2
  | method declared =>
    simp only [isWellFormed, Bool.and_eq_true, List.all_eq_true] at valid
    exact valid.1.1.2

/-- How many levels of bodies and generic arguments an entity has. -/
def nesting : Entity → Nat
  | comment _ => 0
  | enumeration _ => 0
  | dataType declared => Property.bodyNesting declared.properties
  | method declared => declared.nesting

/-- How many levels the deepest entity has. -/
def nestingOfAll (entities : List Entity) : Nat :=
  (entities.map nesting).foldr max 0

theorem nestingOfAll_le_iff {entities : List Entity} {levels : Nat} :
    nestingOfAll entities ≤ levels ↔ ∀ entity ∈ entities, entity.nesting ≤ levels := by
  unfold nestingOfAll
  induction entities with
  | nil => simp
  | cons entity others ih =>
    simp only [List.map_cons, List.foldr_cons, Nat.max_le, ih, List.forall_mem_cons]

def isAllowed (grammar : Grammar) : Entity → Bool
  | comment _ => true
  | enumeration _ => grammar.types
  | dataType _ => grammar.types
  | method _ => grammar.methods

@[simp] theorem isWellFormed_describe (entity : Entity) (description : Option String) :
    (entity.describe description).isWellFormed = entity.isWellFormed := by
  cases entity <;> rfl

@[simp] theorem nesting_describe (entity : Entity) (description : Option String) :
    (entity.describe description).nesting = entity.nesting := by
  cases entity <;> rfl

@[simp] theorem isAllowed_describe (grammar : Grammar) (entity : Entity)
    (description : Option String) :
    (entity.describe description).isAllowed grammar = entity.isAllowed grammar := by
  cases entity <;> rfl

@[simp] theorem isComment_describe (entity : Entity) (description : Option String) :
    (entity.describe description).isComment = entity.isComment := by
  cases entity <;> rfl

@[simp] theorem describe_describe (entity : Entity) (first second : Option String) :
    (entity.describe first).describe second = entity.describe second := by
  cases entity <;> rfl

end Entity

end ApiDef
