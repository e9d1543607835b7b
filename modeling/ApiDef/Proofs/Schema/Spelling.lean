import ApiDef.Schema.Conversion
import ApiDef.Proofs.Model.WellFormed
import ApiDef.Proofs.Reader.TypeSpelling
set_option autoImplicit false

/-!
# How types come back from their shapes

A shape keeps how a type is spelled, and whether it is a list, but not always the type: a reference
that nests too deeply to be read becomes a name of its own. The layout sees no more than the
spelling.
-/

namespace ApiDef

open Text

namespace TypeRef

/-- The type that comes back from the shape of a type. -/
def respelled (type : TypeRef) : TypeRef :=
  (Shape.ofTypeRef type).toTypeRef

/-- The layout cannot tell two types apart. -/
def SpelledAlike (left right : TypeRef) : Prop :=
  left.text = right.text ∧ left.isList = right.isList

/-- A change of types that the layout does not show. -/
def KeepsSpelling (change : TypeRef → TypeRef) : Prop :=
  ∀ type, type.isWellFormed = true → SpelledAlike (change type) type

theorem isWellFormed_element {type : TypeRef} (valid : type.isWellFormed = true) :
    type.element.isWellFormed = true := by
  cases type
  exact valid

theorem spelledAlike_reference {type : TypeRef} (valid : type.isWellFormed = true) :
    SpelledAlike (Shape.reference type.element.text).toTypeRef type.element := by
  unfold Shape.toTypeRef
  rcases read_text (isWellFormed_element valid) with ⟨-, found⟩ | ⟨-, error, failed, -⟩
  · rw [found]
    exact ⟨rfl, rfl⟩
  · rw [failed]
    constructor
    · exact String.append_empty
    · cases type
      rfl

theorem spelledAlike_ofElement {type : TypeRef} (valid : type.isWellFormed = true) :
    SpelledAlike (Shape.ofElement type).toTypeRef type.element := by
  unfold Shape.ofElement
  split
  next primitive =>
    obtain ⟨name, isList, generics⟩ := type
    rw [Bool.and_eq_true, List.isEmpty_iff] at primitive
    obtain ⟨bare, -⟩ := primitive
    obtain rfl : generics = [] := bare
    exact ⟨rfl, rfl⟩
  next => exact spelledAlike_reference valid

theorem text_eq_element_append (type : TypeRef) :
    type.text = type.element.text ++ listMark type.isList := by
  obtain ⟨name, isList, generics⟩ := type
  have mark : (listMark false).toList = [] := rfl
  apply String.toList_inj.mp
  rw [String.toList_append, element, toList_text, toList_text, mark, List.append_nil,
    List.append_assoc]
  rfl

theorem text_asList {type : TypeRef} (single : type.isList = false) :
    type.asList.text = type.text ++ listMark true := by
  have listText := text_eq_element_append type.asList
  cases type
  obtain rfl : _ = false := single
  exact listText

theorem isList_asList (type : TypeRef) : type.asList.isList = true := by
  cases type
  rfl

/-- A well-formed type comes back spelled as it was. -/
theorem keepsSpelling_respelled : KeepsSpelling respelled := by
  intro type valid
  obtain ⟨sameText, sameMark⟩ := spelledAlike_ofElement valid
  have single : type.element.isList = false := by
    cases type
    rfl
  have whole := text_eq_element_append type
  unfold respelled Shape.ofTypeRef
  split
  next isList =>
    rw [isList, ← sameText] at whole
    constructor
    · exact (text_asList (sameMark.trans single)).trans whole.symm
    · rw [isList]
      exact isList_asList _
  next notList =>
    rw [Bool.not_eq_true] at notList
    rw [notList, ← sameText] at whole
    exact ⟨(whole.trans String.append_empty).symm, sameMark.trans (single.trans notList.symm)⟩

end TypeRef

/-!
## Layout and types
-/

mutual

/-- A property with other types in it. -/
def Property.mapTypes (change : TypeRef → TypeRef) : Property → Property
  | .plain field => .plain { field with type := change field.type }
  | .inline field properties =>
    .inline { field with type := change field.type } (Property.mapTypesOfAll change properties)

def Property.mapTypesOfAll (change : TypeRef → TypeRef) : List Property → List Property
  | [] => []
  | property :: others => property.mapTypes change :: Property.mapTypesOfAll change others

end

def Parameter.mapType (change : TypeRef → TypeRef) (parameter : Parameter) : Parameter :=
  { parameter with type := change parameter.type }

def Entity.mapTypes (change : TypeRef → TypeRef) : Entity → Entity
  | .comment text => .comment text
  | .enumeration declared => .enumeration declared
  | .dataType declared =>
    .dataType { declared with properties := Property.mapTypesOfAll change declared.properties }
  | .method declared =>
    .method { declared with
      returnType := change declared.returnType
      parameters := declared.parameters.map (Parameter.mapType change) }

namespace Layout

variable {change : TypeRef → TypeRef}

mutual

theorem property_mapTypes (keeps : TypeRef.KeepsSpelling change) (indentation : Indentation) :
    (member : Property) → member.isWellFormed = true → ∀ depth,
      property indentation depth (member.mapTypes change) = property indentation depth member
  | .plain field, valid, depth => by
    rw [Property.isWellFormed, Field.isWellFormed] at valid
    simp only [Bool.and_eq_true] at valid
    rw [Property.mapTypes, property, property, (keeps field.type valid.1.1.2).1]
  | .inline field [], valid, depth => by
    rw [Property.isWellFormed, Field.isWellFormed] at valid
    simp only [Bool.and_eq_true] at valid
    rw [Property.mapTypes, Property.mapTypesOfAll, property, property,
      (keeps field.type valid.1.1.1.1.2).2]
  | .inline field (first :: others), valid, depth => by
    rw [Property.isWellFormed, Property.areWellFormed, Field.isWellFormed] at valid
    simp only [Bool.and_eq_true] at valid
    rw [Property.mapTypes, Property.mapTypesOfAll, property, property,
      (keeps field.type valid.1.1.1.1.2).2, property_mapTypes keeps indentation first valid.2.1,
      properties_mapTypes keeps indentation others valid.2.2]

theorem properties_mapTypes (keeps : TypeRef.KeepsSpelling change) (indentation : Indentation) :
    (members : List Property) → Property.areWellFormed members = true → ∀ depth,
      properties indentation depth (Property.mapTypesOfAll change members)
        = properties indentation depth members
  | [], _, _ => rfl
  | first :: others, valid, depth => by
    rw [Property.areWellFormed, Bool.and_eq_true] at valid
    rw [Property.mapTypesOfAll, properties, properties,
      property_mapTypes keeps indentation first valid.1,
      properties_mapTypes keeps indentation others valid.2]

end

theorem body_mapTypes (keeps : TypeRef.KeepsSpelling change) (indentation : Indentation)
    {members : List Property} (valid : Property.areWellFormed members = true) :
    body indentation (Property.mapTypesOfAll change members) = body indentation members := by
  have inside := properties_mapTypes keeps indentation members valid 1
  cases members with
  | nil => rfl
  | cons first others => exact congrArg (fun text => "\x7b\n" ++ text ++ "\x7d") inside

theorem method_mapTypes (keeps : TypeRef.KeepsSpelling change) {declared : Method}
    (validParameters : declared.parameters.all Parameter.isWellFormed = true)
    (validReturn : declared.returnType.isWellFormed = true) :
    method { declared with
        returnType := change declared.returnType
        parameters := declared.parameters.map (Parameter.mapType change) }
      = method declared := by
  have parameters : (declared.parameters.map (Parameter.mapType change)).map Parameter.text
      = declared.parameters.map Parameter.text := by
    rw [List.map_map]
    apply List.map_congr_left
    intro parameter member
    have valid := List.all_eq_true.mp validParameters parameter member
    simp only [Parameter.isWellFormed, Bool.and_eq_true] at valid
    have sameType := (keeps parameter.type valid.1.2).1
    exact congrArg _ sameType
  simp only [method, parameters, (keeps declared.returnType validReturn).1]

theorem block_mapTypes (keeps : TypeRef.KeepsSpelling change) (indentation : Indentation)
    {entity : Entity} (valid : entity.isWellFormed = true) :
    block indentation (entity.mapTypes change) = block indentation entity := by
  cases entity with
  | comment text => rfl
  | enumeration declared => rfl
  | dataType declared =>
    simp only [Entity.isWellFormed, Bool.and_eq_true] at valid
    have inside := body_mapTypes keeps indentation valid.2
    simp only [block, dataType, Entity.mapTypes, inside]
  | method declared =>
    simp only [Entity.isWellFormed, Bool.and_eq_true] at valid
    exact method_mapTypes keeps valid.1.2 valid.2

/-- Types that are spelled alike make no difference to the layout. -/
theorem write_mapTypes (keeps : TypeRef.KeepsSpelling change) (indentation : Indentation)
    {entities : List Entity} (valid : ∀ entity ∈ entities, entity.isWellFormed = true) :
    write indentation (entities.map (Entity.mapTypes change)) = write indentation entities := by
  have blocks : (entities.map (Entity.mapTypes change)).map (block indentation)
      = entities.map (block indentation) := by
    rw [List.map_map]
    apply List.map_congr_left
    intro entity member
    exact block_mapTypes keeps indentation (valid entity member)
  rw [write, write, blocks]

end Layout

end ApiDef
