import ApiDef.Proofs.Schema.BagEntries
import ApiDef.Proofs.Schema.Spelling
import Mathlib.Data.List.Basic
set_option autoImplicit false

/-!
# Entities that come back from a schema

Entities that go into a schema come back in another order and with some of their parts rebuilt:
types stand before methods, one property of each name is left in a body, and the tags for verbs
and transports are spelled out. Apart from how types are held, that is a function of the entities.
-/

namespace ApiDef

namespace Property

/-- Puts a property in the place of the one that has its name, or behind all of them. -/
def put (property : Property) : List Property → List Property
  | [] => [property]
  | other :: others =>
    if other.field.name = property.field.name then property :: others
    else other :: put property others

mutual

/-- The property with one property of each name in every body. -/
def collapsed : Property → Property
  | plain field => plain field
  | inline field properties => inline field (collapsedInto [] properties)

def collapsedInto (done : List Property) : List Property → List Property
  | [] => done
  | property :: others => collapsedInto (put (collapsed property) done) others

end

theorem name_mapTypes (change : TypeRef → TypeRef) (property : Property) :
    (property.mapTypes change).field.name = property.field.name := by
  cases property <;> rfl

theorem mapTypesOfAll_put (change : TypeRef → TypeRef) (property : Property) (done : List Property) :
    mapTypesOfAll change (put property done)
      = put (property.mapTypes change) (mapTypesOfAll change done) := by
  induction done with
  | nil => rfl
  | cons other others ih =>
    rw [put, mapTypesOfAll, put, name_mapTypes, name_mapTypes]
    split
    · rfl
    · rw [mapTypesOfAll, ih]

/-- What holds of the properties before and of the new one holds of all properties afterwards. -/
theorem forall_mem_put {good : Property → Prop} {property : Property} {done : List Property}
    (new : good property) (held : ∀ other ∈ done, good other) :
    ∀ other ∈ put property done, good other := by
  induction done with
  | nil => exact List.forall_mem_singleton.mpr new
  | cons first others ih =>
    obtain ⟨goodFirst, goodOthers⟩ := List.forall_mem_cons.mp held
    rw [put]
    split
    · exact List.forall_mem_cons.mpr ⟨new, goodOthers⟩
    · exact List.forall_mem_cons.mpr ⟨goodFirst, ih goodOthers⟩

theorem forall_mem_collapsedInto {good : Property → Prop} {done properties : List Property}
    (held : ∀ other ∈ done, good other)
    (new : ∀ property ∈ properties, good property.collapsed) :
    ∀ other ∈ collapsedInto done properties, good other := by
  induction properties generalizing done with
  | nil => exact held
  | cons property others ih =>
    obtain ⟨first, rest⟩ := List.forall_mem_cons.mp new
    exact ih (forall_mem_put first held) rest

end Property

namespace Schema

/-!
## Properties
-/

theorem name_propertyOfMember (name : String) (member : Member) :
    (propertyOfMember name member).field.name = name := by
  cases member <;> rfl

theorem propertiesOfRow_set {keys : List String} {key : String} (row : Row Member keys)
    (member : Member) (present : key ∈ keys) :
    propertiesOfRow (row.set key member)
      = Property.put (propertyOfMember key member) (propertiesOfRow row) := by
  induction row with
  | nil => exact absurd present List.not_mem_nil
  | @cons first keys value others ih =>
    rw [Row.set, propertiesOfRow, Property.put, name_propertyOfMember, name_propertyOfMember]
    by_cases same : first = key
    · subst same
      rw [if_pos rfl, if_pos rfl, propertiesOfRow]
    · have later : key ∈ keys := List.mem_of_ne_of_mem (Ne.symm same) present
      rw [if_neg same, if_neg same, propertiesOfRow, ih later]

theorem propertiesOfRow_push {keys : List String} {key : String} (row : Row Member keys)
    (member : Member) (absent : key ∉ keys) :
    propertiesOfRow (row.push member : Row Member (keys ++ [key]))
      = Property.put (propertyOfMember key member) (propertiesOfRow row) := by
  induction row with
  | nil => rfl
  | @cons first keys value others ih =>
    rw [List.mem_cons, not_or] at absent
    rw [propertiesOfRow, Property.put, name_propertyOfMember, name_propertyOfMember,
      if_neg (Ne.symm absent.1), ← ih absent.2]
    rfl

theorem propertiesOfRow_insert (bag : Bag Member) (key : String) (member : Member) :
    propertiesOfRow (bag.insert key member).row
      = Property.put (propertyOfMember key member) (propertiesOfRow bag.row) := by
  by_cases present : key ∈ bag.keys
  · rw [Bag.insert, dif_pos present]
    exact propertiesOfRow_set bag.row member present
  · rw [Bag.insert, dif_neg present]
    exact propertiesOfRow_push bag.row member present

mutual

theorem propertyOfMember_memberOfProperty : (property : Property) →
    propertyOfMember property.field.name (memberOfProperty property)
      = property.collapsed.mapTypes TypeRef.respelled
  | .plain field => rfl
  | .inline field properties => by
    have body := propertiesOfRow_membersOfProperties ∅ properties [] rfl
    exact congrArg (Property.inline _) body

theorem propertiesOfRow_membersOfProperties (bag : Bag Member) : (properties : List Property) →
    ∀ done, propertiesOfRow bag.row = Property.mapTypesOfAll TypeRef.respelled done →
      propertiesOfRow (membersOfProperties bag properties).row
        = Property.mapTypesOfAll TypeRef.respelled (Property.collapsedInto done properties)
  | [], _, same => same
  | property :: others, done, same => by
    have first := propertyOfMember_memberOfProperty property
    rw [membersOfProperties, Property.collapsedInto]
    apply propertiesOfRow_membersOfProperties
    rw [propertiesOfRow_insert, first, same, Property.mapTypesOfAll_put]

end

end Schema

/-!
## Methods
-/

/-- The parameter with its transport spelled out where a schema spells it out. -/
def Parameter.explicit (hasVerb : Bool) (parameter : Parameter) : Parameter :=
  { parameter with
    tags := (Schema.parameterOfArgument hasVerb parameter.name
      (Schema.argumentOfParameter parameter)).tags }

/-- The method with the tag for its verb in front and with explicit parameters. -/
def Method.explicit (method : Method) : Method :=
  { method with
    tags := (Schema.methodOfOperation (Schema.operationOfMethod method)).tags
    parameters := method.parameters.map (Parameter.explicit method.verb?.isSome) }

namespace Entity

def asType? : Entity → Option Entity
  | enumeration declared => some (enumeration declared)
  | dataType declared =>
    some (dataType { declared with properties := Property.collapsedInto [] declared.properties })
  | _ => none

def asMethod? : Entity → Option Entity
  | method declared => some (method declared.explicit)
  | _ => none

/-- What entities come to on the way into a schema and back, but for the way their types are held. -/
def regenerated (entities : List Entity) : List Entity :=
  entities.filterMap asType? ++ entities.filterMap asMethod?

/-- Whether no two parameters of a method have the same name. -/
def hasDistinctParameters : Entity → Bool
  | method declared => (declared.parameters.map (·.name)).Nodup
  | _ => true

end Entity

namespace Schema

theorem entityOfType_typeOfEntity? (entity : Entity) :
    (typeOfEntity? entity).map entityOfType
      = entity.asType?.map (Entity.mapTypes TypeRef.respelled) := by
  cases entity with
  | comment | enumeration | method => rfl
  | dataType declared =>
    have body := propertiesOfRow_membersOfProperties ∅ declared.properties [] rfl
    simp only [typeOfEntity?, Entity.asType?, Option.map_some, entityOfType, Entity.mapTypes, body]

theorem entries_argumentsOfParameters {parameters : List Parameter}
    (distinct : (parameters.map (·.name)).Nodup) :
    (argumentsOfParameters parameters).entries
      = parameters.map fun parameter => (parameter.name, argumentOfParameter parameter) := by
  apply Bag.entries_ofList
  rwa [List.map_map]

theorem methodOfOperation_operationOfMethod {method : Method}
    (distinct : (method.parameters.map (·.name)).Nodup) :
    Entity.method (methodOfOperation (operationOfMethod method))
      = (Entity.method method.explicit).mapTypes TypeRef.respelled := by
  have hasVerb : (operationOfMethod method).verb.isSome = method.verb?.isSome := Option.isSome_map
  have parameters : (methodOfOperation (operationOfMethod method)).parameters
      = method.explicit.parameters.map (Parameter.mapType TypeRef.respelled) := by
    have entries := entries_argumentsOfParameters distinct
    rw [methodOfOperation, Method.explicit]
    simp only [hasVerb]
    rw [operationOfMethod, entries, List.map_map, List.map_map]
    rfl
  rw [Entity.mapTypes, ← parameters]
  rfl

theorem methodOfOperation_operationOfEntity? {entity : Entity}
    (distinct : entity.hasDistinctParameters = true) :
    (operationOfEntity? entity).map (fun operation => .method (methodOfOperation operation))
      = entity.asMethod?.map (Entity.mapTypes TypeRef.respelled) := by
  cases entity with
  | comment | enumeration | dataType => rfl
  | method declared =>
    exact congrArg some (methodOfOperation_operationOfMethod (of_decide_eq_true distinct))

theorem toEntities_ofEntities {entities : List Entity}
    (distinct : ∀ entity ∈ entities, entity.hasDistinctParameters = true) :
    toEntities (ofEntities entities)
      = (Entity.regenerated entities).map (Entity.mapTypes TypeRef.respelled) := by
  have types : (entities.filterMap typeOfEntity?).map entityOfType
      = (entities.filterMap Entity.asType?).map (Entity.mapTypes TypeRef.respelled) := by
    rw [List.map_filterMap, List.map_filterMap]
    exact List.filterMap_congr fun entity _ => entityOfType_typeOfEntity? entity
  have methods : (entities.filterMap operationOfEntity?).map
        (fun operation => .method (methodOfOperation operation))
      = (entities.filterMap Entity.asMethod?).map (Entity.mapTypes TypeRef.respelled) := by
    rw [List.map_filterMap, List.map_filterMap]
    apply List.filterMap_congr
    intro entity member
    exact methodOfOperation_operationOfEntity? (distinct entity member)
  rw [toEntities, ofEntities, types, methods, Entity.regenerated, List.map_append]

end Schema

end ApiDef
