import ApiDef.Proofs.Document.Findings
import ApiDef.Proofs.Schema.Canonical
set_option autoImplicit false

/-!
# Schemas that come back from their entities

What a schema holds comes back from the entities that it is turned into, with one exception. An
operation without a verb leaves the usual transport of an argument unsaid, and then another tag of
the argument may speak for a transport in its place. A schema of a text comes back exactly if it has
no such argument.
-/

namespace ApiDef

/-!
## Members
-/

/-- A shape that comes back from its type. -/
def Shape.IsSettled (shape : Shape) : Prop :=
  Shape.ofTypeRef shape.toTypeRef = shape

theorem Shape.isSettled_ofTypeRef {type : TypeRef} (valid : type.isWellFormed = true) :
    (Shape.ofTypeRef type).IsSettled :=
  TypeRef.ofTypeRef_respelled valid

namespace Schema

mutual

/-- The shapes of a member and of those inside it come back from their types. -/
def Member.IsSettled : Member → Prop
  | .plain parts => parts.shape.IsSettled
  | .inline parts ⟨_, _, row⟩ => parts.shape.IsSettled ∧ RowIsSettled row

def RowIsSettled : {keys : List String} → Row Member keys → Prop
  | _, .nil => True
  | _ :: _, .cons member others => Member.IsSettled member ∧ RowIsSettled others

end

theorem rowIsSettled_iff {keys : List String} {row : Row Member keys} :
    RowIsSettled row ↔ ∀ entry ∈ row.entries, entry.2.IsSettled := by
  induction row with
  | nil => simp [RowIsSettled, Row.entries]
  | cons member others ih => rw [RowIsSettled, Row.entries, List.forall_mem_cons, ih]

theorem partsOfField_fieldOfParts {parts : MemberParts} (settled : parts.shape.IsSettled)
    (name : String) : partsOfField (fieldOfParts name parts) = parts := by
  rw [partsOfField, fieldOfParts, settled]

mutual

theorem memberOfProperty_propertyOfMember (name : String) : (member : Member) → member.IsSettled →
    memberOfProperty (propertyOfMember name member) = member
  | .plain parts, settled => by
    rw [propertyOfMember, memberOfProperty, partsOfField_fieldOfParts settled]
  | .inline parts ⟨keys, distinct, row⟩, settled => by
    have body : membersOfProperties ∅ (propertiesOfRow row) = ⟨keys, distinct, row⟩ :=
      Bag.ext_entries (entries_membersOfProperties ∅ row settled.2 distinct)
    rw [propertyOfMember, memberOfProperty, partsOfField_fieldOfParts settled.1, body]

/-- The properties of a row are put into a bag behind what is there, if their names are new. -/
theorem entries_membersOfProperties (bag : Bag Member) : {keys : List String} →
    (row : Row Member keys) → RowIsSettled row → (bag.keys ++ keys).Nodup →
    (membersOfProperties bag (propertiesOfRow row)).entries = bag.entries ++ row.entries
  | _, .nil, _, _ => (List.append_nil _).symm
  | key :: keys, .cons member others, settled, distinct => by
    have new : key ∉ bag.keys := by
      intro present
      rw [List.nodup_append] at distinct
      exact distinct.2.2 _ present _ List.mem_cons_self rfl
    have same := memberOfProperty_propertyOfMember key member settled.1
    have inserted : (bag.insert key member).entries = bag.entries ++ [(key, member)] :=
      Bag.entries_insert_new new
    have keysAfter : (bag.insert key member).keys = bag.keys ++ [key] := by
      rw [Bag.keys_insert, if_neg new]
    have rest := entries_membersOfProperties (bag.insert key member) others settled.2
      (by rwa [keysAfter, List.append_assoc])
    rw [propertiesOfRow, membersOfProperties, name_propertyOfMember, same, rest, inserted,
      List.append_assoc]
    rfl

end

mutual

theorem isSettled_memberOfProperty : (property : Property) → property.isWellFormed = true →
    (memberOfProperty property).IsSettled
  | .plain field, valid => by
    rw [Property.isWellFormed, Field.isWellFormed] at valid
    simp only [Bool.and_eq_true] at valid
    exact Shape.isSettled_ofTypeRef valid.1.1.2
  | .inline field properties, valid => by
    rw [Property.isWellFormed, Field.isWellFormed] at valid
    simp only [Bool.and_eq_true] at valid
    obtain ⟨⟨⟨⟨⟨-, validType⟩, -⟩, -⟩, -⟩, validBody⟩ := valid
    have body := isSettled_membersOfProperties ∅ properties validBody (List.forall_mem_nil _)
    exact ⟨Shape.isSettled_ofTypeRef validType, rowIsSettled_iff.mpr body⟩

theorem isSettled_membersOfProperties (bag : Bag Member) : (properties : List Property) →
    Property.areWellFormed properties = true →
    (∀ entry ∈ bag.entries, entry.2.IsSettled) →
    ∀ entry ∈ (membersOfProperties bag properties).entries, entry.2.IsSettled
  | [], _, held => held
  | property :: others, valid, held => by
    rw [Property.areWellFormed, Bool.and_eq_true] at valid
    have first := isSettled_memberOfProperty property valid.1
    exact isSettled_membersOfProperties _ others valid.2 (Bag.forall_mem_insert held first)

end

/-!
## Arguments
-/

/-- What is written for an argument tells its transport: a tag for it is written, or no other tag is
for a transport. -/
def Argument.TellsTransport (hasVerb : Bool) (argument : Argument) : Prop :=
  spellsTransport hasVerb argument = true ∨ Transport.find? argument.tags = none

theorem find?_transportTag_cons (argument : Argument) (tags : List Tag) :
    Transport.find? (transportTag argument :: tags)
      = some (argument.transport, transportTag argument) := by
  have named : Transport.ofName? (transportTag argument).name = some argument.transport := by
    change Transport.ofName? argument.transport.tagName = _
    cases argument.transport <;> decide
  rw [Transport.find?, List.findSome?_cons, named]
  rfl

theorem isOptional_transportTag (argument : Argument) :
    (transportTag argument).isOptional = argument.isOptional := by
  have table : ∀ isOptional : Bool, Tag.isOptional ⟨"", [], if isOptional then
      .ofList [(optionalKey, optionalValue)] else ∅⟩ = isOptional := by
    decide
  exact table argument.isOptional

variable {hasVerb : Bool} {name : String} {argument : Argument}

theorem argumentOfParameter_of_spelled (settled : argument.shape.IsSettled)
    (spelled : spellsTransport hasVerb argument = true) :
    argumentOfParameter (parameterOfArgument hasVerb name argument) = argument := by
  have tags : (parameterOfArgument hasVerb name argument).tags
      = transportTag argument :: argument.tags := by
    rw [parameterOfArgument, if_pos spelled, List.singleton_append]
  have identifier : (transportTag argument).firstArgument? = argument.identifier :=
    Option.head?_toList
  have optional := isOptional_transportTag argument
  rw [Tag.isOptional] at optional
  simp only [argumentOfParameter, tags, find?_transportTag_cons, Option.map_some, Option.getD_some,
    Option.bind_some, identifier, optional, withoutTag, List.erase_cons_head]
  exact congrArg (fun shape => { argument with shape }) settled

theorem argumentOfParameter_of_unsaid (settled : argument.shape.IsSettled)
    (unsaid : spellsTransport false argument = false) :
    argumentOfParameter (parameterOfArgument false name argument) = argument
      ↔ Transport.find? argument.tags = none := by
  have tags : (parameterOfArgument false name argument).tags = argument.tags := by
    rw [parameterOfArgument, unsaid]
    rfl
  cases found : Transport.find? argument.tags with
  | none =>
    obtain ⟨usual, unnamed, required⟩ := spellsTransport_eq_false_iff.mp unsaid
    have shape : Shape.ofTypeRef (parameterOfArgument false name argument).type = argument.shape :=
      settled
    have same : argumentOfParameter (parameterOfArgument false name argument)
        = ⟨argument.shape, .fallback, none, false, argument.tags⟩ := by
      simp only [argumentOfParameter, tags, found, shape]
      rfl
    rw [same, ← usual, ← unnamed, ← required]
    exact iff_of_true rfl rfl
  | some pair =>
    -- The tag that was found is taken out, so a tag is missing afterwards.
    obtain ⟨transport, tag⟩ := pair
    have inside : tag ∈ argument.tags := by
      rw [Transport.find?, List.findSome?_eq_some_iff] at found
      obtain ⟨before, first, after, same, isTag, -⟩ := found
      obtain ⟨_, -, paired⟩ := Option.map_eq_some_iff.mp isTag
      obtain ⟨-, rfl⟩ := Prod.mk.inj paired
      rw [same]
      exact List.mem_append_right _ List.mem_cons_self
    refine iff_of_false (fun same => ?_) (fun none => by cases none)
    have shorter := congrArg (fun argument => argument.tags.length) same
    simp only [argumentOfParameter, tags, found, Option.map_some, withoutTag,
      List.length_erase_of_mem inside] at shorter
    have := List.length_pos_of_mem inside
    omega

/-- An argument comes back exactly if what is written for it tells its transport. -/
theorem argumentOfParameter_parameterOfArgument (settled : argument.shape.IsSettled) :
    argumentOfParameter (parameterOfArgument hasVerb name argument) = argument
      ↔ argument.TellsTransport hasVerb := by
  cases spelled : spellsTransport hasVerb argument with
  | true => exact iff_of_true (argumentOfParameter_of_spelled settled spelled) (.inl spelled)
  | false =>
    obtain rfl : hasVerb = false := by
      cases hasVerb with
      | true => cases spelled
      | false => rfl
    rw [argumentOfParameter_of_unsaid settled spelled, Argument.TellsTransport, spelled]
    simp

/-!
## Operations
-/

/-- An operation whose shapes come back from their types, and that has no path and no tag for a verb
where it has no verb. -/
structure Operation.IsSettled (operation : Operation) : Prop where
  response : operation.response.IsSettled
  arguments : ∀ entry ∈ operation.arguments.entries, entry.2.shape.IsSettled
  withoutVerb : operation.verb = none →
    operation.path = none ∧ ∀ tag ∈ operation.tags, Verb.ofName? tag.name = none

def Operation.TellsTransports (operation : Operation) : Prop :=
  ∀ entry ∈ operation.arguments.entries, entry.2.TellsTransport operation.verb.isSome

theorem verb?_methodOfOperation {operation : Operation} (settled : operation.IsSettled) :
    (methodOfOperation operation).verb?
      = operation.verb.map fun verb => (verb, verbTag operation.path verb) := by
  cases found : operation.verb with
  | none =>
    obtain ⟨-, noVerb⟩ := settled.withoutVerb found
    rw [Method.verb?, methodOfOperation, found]
    refine List.findSome?_eq_none_iff.mpr fun tag member => ?_
    rw [noVerb tag member]
    rfl
  | some verb =>
    have named : Verb.ofName? (verbTag operation.path verb).name = some verb := by
      change Verb.ofName? verb.tagName = _
      cases verb <;> decide
    rw [Method.verb?, methodOfOperation, found, Option.map_some, Option.toList_some,
      List.singleton_append, List.findSome?_cons, named]
    rfl

theorem entries_arguments_again (operation : Operation) (hasVerb : Bool) :
    (argumentsOfParameters (operation.arguments.entries.map fun (name, argument) =>
        parameterOfArgument hasVerb name argument)).entries
      = operation.arguments.entries.map fun entry =>
        (entry.1, argumentOfParameter (parameterOfArgument hasVerb entry.1 entry.2)) := by
  rw [argumentsOfParameters, List.map_map]
  apply Bag.entries_ofList
  rw [List.map_map]
  have distinct := operation.arguments.distinct
  rw [← Bag.map_fst_entries] at distinct
  exact distinct

theorem arguments_again_iff {operation : Operation} (settled : operation.IsSettled) :
    argumentsOfParameters (operation.arguments.entries.map fun (name, argument) =>
        parameterOfArgument operation.verb.isSome name argument) = operation.arguments
      ↔ operation.TellsTransports := by
  have each : ∀ entry ∈ operation.arguments.entries,
      ((entry.1, argumentOfParameter
          (parameterOfArgument operation.verb.isSome entry.1 entry.2)) = entry
        ↔ entry.2.TellsTransport operation.verb.isSome) := by
    intro entry member
    have back : argumentOfParameter
        (parameterOfArgument operation.verb.isSome entry.1 entry.2) = entry.2
        ↔ entry.2.TellsTransport operation.verb.isSome :=
      argumentOfParameter_parameterOfArgument (settled.arguments entry member)
    rw [← back]
    exact ⟨fun same => congrArg Prod.snd same, fun same => Prod.ext rfl same⟩
  have again := entries_arguments_again operation operation.verb.isSome
  constructor
  · intro same entry member
    rw [same] at again
    have fixed := List.map_inj_left.mp ((List.map_id _).trans again).symm
    exact (each entry member).mp (fixed entry member)
  · intro told
    apply Bag.ext_entries
    rw [again]
    conv_rhs => rw [← List.map_id operation.arguments.entries]
    exact List.map_congr_left fun entry member => (each entry member).mpr (told entry member)

/-- An operation comes back exactly if what is written for its arguments tells their transports. -/
theorem operationOfMethod_methodOfOperation {operation : Operation} (settled : operation.IsSettled) :
    operationOfMethod (methodOfOperation operation) = operation ↔ operation.TellsTransports := by
  have found := verb?_methodOfOperation settled
  have verb : (operationOfMethod (methodOfOperation operation)).verb = operation.verb := by
    rw [operationOfMethod, found, Option.map_map]
    exact Option.map_id' ..
  have path : (operationOfMethod (methodOfOperation operation)).path = operation.path := by
    simp only [operationOfMethod, found]
    cases hasVerb : operation.verb with
    | none => exact (settled.withoutVerb hasVerb).1.symm
    | some verb => exact Option.head?_toList
  have tags : (operationOfMethod (methodOfOperation operation)).tags = operation.tags := by
    simp only [operationOfMethod, found]
    cases hasVerb : operation.verb with
    | none => simp [methodOfOperation, hasVerb, withoutTag]
    | some verb => simp [methodOfOperation, hasVerb, withoutTag]
  have response : (operationOfMethod (methodOfOperation operation)).response = operation.response :=
    settled.response
  rw [← arguments_again_iff settled]
  constructor
  · intro same
    exact congrArg Operation.arguments same
  · intro same
    have arguments : (operationOfMethod (methodOfOperation operation)).arguments
        = operation.arguments := same
    calc operationOfMethod (methodOfOperation operation)
        = ⟨operation.name, operation.description,
            (operationOfMethod (methodOfOperation operation)).verb,
            (operationOfMethod (methodOfOperation operation)).path,
            (operationOfMethod (methodOfOperation operation)).arguments,
            (operationOfMethod (methodOfOperation operation)).response,
            (operationOfMethod (methodOfOperation operation)).tags⟩ := rfl
      _ = operation := by rw [verb, path, arguments, response, tags]

theorem isSettled_operationOfMethod {method : Method}
    (validParameters : method.parameters.all Parameter.isWellFormed = true)
    (validReturn : method.returnType.isWellFormed = true) :
    (operationOfMethod method).IsSettled := by
  refine ⟨Shape.isSettled_ofTypeRef validReturn, ?_, ?_⟩
  · apply Bag.forall_mem_ofList
    rw [List.forall_mem_map]
    intro parameter member
    have valid := List.all_eq_true.mp validParameters parameter member
    simp only [Parameter.isWellFormed, Bool.and_eq_true] at valid
    exact Shape.isSettled_ofTypeRef valid.1.2
  · intro none
    have noVerb : method.verb? = Option.none := Option.map_eq_none_iff.mp none
    have tags : (operationOfMethod method).tags = method.tags := by
      simp only [operationOfMethod, noVerb]
      rfl
    rw [tags]
    refine ⟨by simp only [operationOfMethod, noVerb]; rfl, fun tag member => ?_⟩
    rw [Method.verb?, List.findSome?_eq_none_iff] at noVerb
    exact Option.map_eq_none_iff.mp (noVerb tag member)

/-!
## Schemas
-/

def TypeEntry.IsSettled : TypeEntry → Prop
  | .record declared => ∀ entry ∈ declared.members.entries, entry.2.IsSettled
  | .enumeration _ => True

end Schema

/-- A schema that comes back from its entities, but for the transports of arguments. -/
structure Schema.IsSettled (schema : Schema) : Prop where
  types : ∀ entry ∈ schema.types, entry.IsSettled
  operations : ∀ operation ∈ schema.operations, operation.IsSettled

namespace Schema

theorem typeOfEntity?_entityOfType {entry : TypeEntry} (settled : entry.IsSettled) :
    typeOfEntity? (entityOfType entry) = some entry := by
  cases entry with
  | enumeration declared => rfl
  | record declared =>
    obtain ⟨name, description, tags, ⟨keys, distinct, row⟩⟩ := declared
    have body : membersOfProperties ∅ (propertiesOfRow row) = ⟨keys, distinct, row⟩ :=
      Bag.ext_entries (entries_membersOfProperties ∅ row (rowIsSettled_iff.mpr settled) distinct)
    rw [entityOfType, typeOfEntity?, body]

theorem ofEntities_toEntities {schema : Schema} (settled : schema.IsSettled) :
    ofEntities (toEntities schema)
      = ⟨schema.types, schema.operations.map fun operation =>
          operationOfMethod (methodOfOperation operation)⟩ := by
  have types : (schema.types.map entityOfType).filterMap typeOfEntity? = schema.types := by
    have back : ∀ entry ∈ schema.types, (typeOfEntity? ∘ entityOfType) entry = some entry :=
      fun entry member => typeOfEntity?_entityOfType (settled.types entry member)
    rw [List.filterMap_map, List.filterMap_congr back]
    exact List.filterMap_some
  have noOperations : (schema.types.map entityOfType).filterMap operationOfEntity? = [] := by
    rw [List.filterMap_map, List.filterMap_eq_nil_iff]
    intro entry _
    cases entry <;> rfl
  have noTypes : (schema.operations.map fun operation =>
      Entity.method (methodOfOperation operation)).filterMap typeOfEntity? = [] := by
    rw [List.filterMap_map, List.filterMap_eq_nil_iff]
    intro operation _
    rfl
  have operations : (schema.operations.map fun operation =>
      Entity.method (methodOfOperation operation)).filterMap operationOfEntity?
        = schema.operations.map fun operation =>
          operationOfMethod (methodOfOperation operation) := by
    rw [List.filterMap_map]
    exact congrFun List.filterMap_eq_map _
  rw [ofEntities, toEntities, List.filterMap_append, List.filterMap_append, types, noOperations,
    noTypes, operations, List.append_nil, List.nil_append]

/-- A settled schema comes back exactly if what is written for its arguments tells their transports. -/
theorem ofEntities_toEntities_iff {schema : Schema} (settled : schema.IsSettled) :
    ofEntities (toEntities schema) = schema
      ↔ ∀ operation ∈ schema.operations, operation.TellsTransports := by
  have each : ∀ operation ∈ schema.operations,
      (operationOfMethod (methodOfOperation operation) = operation ↔ operation.TellsTransports) :=
    fun operation member => operationOfMethod_methodOfOperation (settled.operations operation member)
  rw [ofEntities_toEntities settled]
  constructor
  · intro same operation member
    have fixed := (congrArg Schema.operations same).trans (List.map_id _).symm
    exact (each operation member).mp (List.map_inj_left.mp fixed operation member)
  · intro told
    have fixed : schema.operations.map (fun operation =>
        operationOfMethod (methodOfOperation operation)) = schema.operations := by
      rw [List.map_congr_left fun operation member =>
        (each operation member).mpr (told operation member)]
      exact List.map_id' _
    rw [fixed]

/-- What can be spelled gives a settled schema. -/
theorem isSettled_ofEntities {entities : List Entity}
    (valid : ∀ entity ∈ entities, entity.isWellFormed = true) : (ofEntities entities).IsSettled := by
  constructor
  · intro entry member
    obtain ⟨entity, inside, found⟩ := List.mem_filterMap.mp member
    have validEntity := valid entity inside
    cases entity with
    | comment | method => cases found
    | enumeration declared =>
      cases found
      trivial
    | dataType declared =>
      cases found
      simp only [Entity.isWellFormed, Bool.and_eq_true] at validEntity
      exact isSettled_membersOfProperties ∅ _ validEntity.2 (List.forall_mem_nil _)
  · intro operation member
    obtain ⟨entity, inside, found⟩ := List.mem_filterMap.mp member
    have validEntity := valid entity inside
    cases entity with
    | comment | enumeration | dataType => cases found
    | method declared =>
      cases found
      simp only [Entity.isWellFormed, Bool.and_eq_true] at validEntity
      exact isSettled_operationOfMethod validEntity.1.2 validEntity.2

/-- The schema of a text comes back from its entities exactly if each argument of an operation without
verb has a transport tag to write, or no tag for a transport among its others. -/
theorem ofEntities_toEntities_of_read {patternFault? : String → Option String} {options : Options}
    {text : String} {document : Document}
    (accepted : Document.readWith patternFault? options text = .ok document) :
    ofEntities (toEntities (ofEntities document.entities)) = ofEntities document.entities
      ↔ ∀ operation ∈ (ofEntities document.entities).operations, operation.verb = none →
        ∀ entry ∈ operation.arguments.entries,
          spellsTransport false entry.2 = true ∨ Transport.find? entry.2.tags = none := by
  obtain ⟨valid, -, -⟩ := Document.content_of_read accepted
  rw [ofEntities_toEntities_iff (isSettled_ofEntities valid)]
  refine forall₂_congr fun operation member => ?_
  cases hasVerb : operation.verb with
  | some verb =>
    refine iff_of_true ?_ (fun none => by cases none)
    intro entry member
    rw [hasVerb]
    exact .inl rfl
  | none =>
    rw [Operation.TellsTransports, hasVerb]
    exact ⟨fun told _ => told, fun told => told rfl⟩

/-- The transport of `p` is told by its first tag, and that of `q` by the usual one having a name. -/
def furtherTransportText : String := "m(@Path @Query p: string, @Query(\"n\") @Path q: string): void"

theorem ofEntities_toEntities_furtherTransport :
    ∃ document, Document.readWith (fun _ => none) .permissive furtherTransportText = .ok document
      ∧ ofEntities (toEntities (ofEntities document.entities)) = ofEntities document.entities := by
  have cleanly : Document.readsCleanly (fun _ => none) .permissive
      (fun entities => (ofEntities entities).operations.all fun operation =>
        operation.arguments.entries.all fun entry => spellsTransport false entry.2)
      furtherTransportText.toList = true := by
    decide +kernel
  obtain ⟨document, accepted, spelled⟩ := Document.exists_of_readsCleanly _ cleanly
  rw [String.ofList_toList] at accepted
  refine ⟨document, accepted, (ofEntities_toEntities_of_read accepted).mpr ?_⟩
  intro operation member _ entry inside
  exact .inl (List.all_eq_true.mp (List.all_eq_true.mp spelled operation member) entry inside)

/-- The usual transport, written for a method without verb, is lost to another one behind it. -/
theorem not_ofEntities_toEntities_of_secondTransport :
    ∃ document, Document.readWith (fun _ => none) .permissive "m(@Query @Path(\"x\") p: string): void" = .ok document
      ∧ ofEntities (toEntities (ofEntities document.entities)) ≠ ofEntities document.entities := by
  have cleanly : Document.readsCleanly (fun _ => none) .permissive
      (fun entities => entities.all Entity.isWellFormed
        && (ofEntities entities).operations.any fun operation => operation.verb.isNone
          && operation.arguments.entries.any fun entry =>
            !spellsTransport false entry.2 && (Transport.find? entry.2.tags).isSome)
      "m(@Query @Path(\"x\") p: string): void".toList = true := by
    decide +kernel
  obtain ⟨document, accepted, passes⟩ := Document.exists_of_readsCleanly _ cleanly
  rw [String.ofList_toList] at accepted
  obtain ⟨valid, lost⟩ := Bool.and_eq_true_iff.mp passes
  obtain ⟨operation, member, unsure⟩ := List.any_eq_true.mp lost
  obtain ⟨noVerb, lostArgument⟩ := Bool.and_eq_true_iff.mp unsure
  obtain ⟨entry, inside, unsaid⟩ := List.any_eq_true.mp lostArgument
  obtain ⟨notSpelled, another⟩ := Bool.and_eq_true_iff.mp unsaid
  refine ⟨document, accepted, fun same => ?_⟩
  have settled := isSettled_ofEntities (List.all_eq_true.mp valid)
  have told := (ofEntities_toEntities_iff settled).mp same operation member entry inside
  rw [Argument.TellsTransport, Option.isNone_iff_eq_none.mp noVerb] at told
  rcases told with spelled | none
  · rw [Bool.not_eq_true'] at notSpelled
    exact absurd (spelled.symm.trans notSpelled) (by decide)
  · rw [none] at another
    cases another

end Schema

end ApiDef
