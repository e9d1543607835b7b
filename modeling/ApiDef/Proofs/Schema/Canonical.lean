import ApiDef.Proofs.Schema.Regenerated
import ApiDef.Proofs.Schema.Shapes
set_option autoImplicit false

/-!
# Entities that come back from a schema unchanged

A schema keeps no comments, no order between types and methods, one member of each name, and verbs
and transports as values. Entities that say nothing beyond that come back from their schema as they
were: comments aside, types stand in front, names are distinct, and a tag for a verb or transport
stands first in its usual spelling.
-/

namespace ApiDef

/-!
## Tags that are values in a schema
-/

namespace Tag

/-- Whether a tag names a verb in its usual spelling, with at most a path. -/
def isVerbTag (tag : Tag) : Bool :=
  Verb.all.any (fun verb => tag.name = verb.tagName) && tag.arguments.length ≤ 1
    && tag.options = ∅

/-- Whether a tag names a transport in its usual spelling, with at most an identifier, and says no
more than that the argument is optional. -/
def isTransportTag (tag : Tag) : Bool :=
  Transport.all.any (fun transport => tag.name = transport.tagName) && tag.arguments.length ≤ 1
    && (tag.options = ∅ || tag.options = .ofList [("optional", "true")])

/-- The tag that spells out the usual transport and nothing else. -/
def bareQuery : Tag := ⟨"@Query", [], ∅⟩

theorem toList_firstArgument? {tag : Tag} (single : tag.arguments.length ≤ 1) :
    tag.firstArgument?.toList = tag.arguments := by
  rw [firstArgument?]
  match tag.arguments, single with
  | [], _ => rfl
  | [_], _ => rfl

theorem exists_of_isVerbTag {tag : Tag} (isTag : tag.isVerbTag = true) :
    ∃ verb, Verb.ofName? tag.name = some verb ∧ Schema.verbTag tag.firstArgument? verb = tag := by
  simp only [isVerbTag, Bool.and_eq_true, List.any_eq_true, decide_eq_true_eq] at isTag
  obtain ⟨⟨⟨verb, -, named⟩, single⟩, bare⟩ := isTag
  refine ⟨verb, ?_, ?_⟩
  · rw [named]
    cases verb <;> decide
  · rw [Schema.verbTag, toList_firstArgument? single, ← named, ← bare]

/-- Whether a tag makes its argument optional. -/
def isOptional (tag : Tag) : Bool :=
  ((tag.option? Schema.optionalKey).map fun value =>
    Text.sameIgnoringCase value Schema.optionalValue).getD false

theorem exists_of_isTransportTag {tag : Tag} (isTag : tag.isTransportTag = true) :
    ∃ transport, Transport.ofName? tag.name = some transport
      ∧ ∀ shape tags,
        Schema.transportTag ⟨shape, transport, tag.firstArgument?, tag.isOptional, tags⟩ = tag := by
  simp only [isTransportTag, Bool.and_eq_true, Bool.or_eq_true, List.any_eq_true,
    decide_eq_true_eq] at isTag
  obtain ⟨⟨⟨transport, -, named⟩, single⟩, options⟩ := isTag
  refine ⟨transport, ?_, fun shape tags => ?_⟩
  · rw [named]
    cases transport <;> decide
  · have spelled : (if tag.isOptional then
          OptionTable.ofList [(Schema.optionalKey, Schema.optionalValue)] else ∅) = tag.options := by
      rcases options with none | optional
      · rw [isOptional, option?, none]
        rfl
      · rw [isOptional, option?, optional]
        decide
    rw [Schema.transportTag, spelled, toList_firstArgument? single, ← named]

end Tag

namespace Schema

variable {argument : Argument}

/-- Where no verb asks for it, the usual transport stays unsaid if there is nothing else to say. -/
theorem spellsTransport_eq_false_iff :
    spellsTransport false argument = false
      ↔ argument.transport = .fallback ∧ argument.identifier = none ∧ argument.isOptional = false := by
  simp only [spellsTransport, Bool.false_or, Bool.or_eq_false_iff, decide_eq_false_iff_not, not_not,
    Option.isSome_eq_false_iff, Option.isNone_iff_eq_none, and_assoc]

theorem transportTag_of_unsaid (unsaid : spellsTransport false argument = false) :
    transportTag argument = .bareQuery := by
  obtain ⟨usual, unnamed, required⟩ := spellsTransport_eq_false_iff.mp unsaid
  rw [transportTag, usual, unnamed, required]
  rfl

end Schema

/-!
## Canonical entities
-/

namespace Property

mutual

/-- Whether the types of a property are readable and the names in its body are distinct. -/
def isCanonical : Property → Bool
  | plain field => field.type.isReadable
  | inline field properties =>
    field.type.isReadable && (properties.map (·.field.name)).Nodup && areCanonical properties

def areCanonical : List Property → Bool
  | [] => true
  | property :: others => isCanonical property && areCanonical others

end

end Property

/-- Whether a parameter spells out its transport just where a schema does. Where the method has no
verb, a transport may stay unsaid. -/
def Parameter.isCanonical (hasVerb : Bool) (parameter : Parameter) : Bool :=
  parameter.type.isReadable
    && if hasVerb then parameter.tags.head?.any Tag.isTransportTag
      else (Transport.find? parameter.tags).isNone
        || parameter.tags.head?.any fun tag => tag.isTransportTag && tag ≠ .bareQuery

/-- A method that comes back from a schema unchanged. -/
structure Method.IsCanonical (method : Method) : Prop where
  distinct : (method.parameters.map (·.name)).Nodup
  returned : method.returnType.isReadable = true
  verb : method.verb?.isSome = true → method.tags.head?.any Tag.isVerbTag = true
  parameters : ∀ parameter ∈ method.parameters, parameter.isCanonical method.verb?.isSome = true

namespace Entity

/-- Entities that come back from a schema unchanged. -/
structure AreCanonical (entities : List Entity) : Prop where
  uncommented : ∀ entity ∈ entities, entity.kind ≠ .comment
  typesFirst : entities.Pairwise fun earlier later => earlier.kind = .method → later.kind = .method
  bodies : ∀ declared, dataType declared ∈ entities →
    (declared.properties.map (·.field.name)).Nodup
      ∧ Property.areCanonical declared.properties = true
  methods : ∀ declared, method declared ∈ entities → declared.IsCanonical

end Entity

/-!
## Nothing is collapsed and nothing is spelled out
-/

namespace Property

theorem put_of_new {property : Property} {done : List Property}
    (new : property.field.name ∉ done.map (·.field.name)) : put property done = done ++ [property] := by
  induction done with
  | nil => rfl
  | cons other others ih =>
    rw [List.map_cons, List.mem_cons, not_or] at new
    rw [put, if_neg (Ne.symm new.1), ih new.2, List.cons_append]

theorem collapsedInto_append {done properties : List Property}
    (distinct : ((done ++ properties).map (·.field.name)).Nodup)
    (each : ∀ property ∈ properties, property.collapsed = property) :
    collapsedInto done properties = done ++ properties := by
  induction properties generalizing done with
  | nil => rw [collapsedInto, List.append_nil]
  | cons property others ih =>
    obtain ⟨first, rest⟩ := List.forall_mem_cons.mp each
    have new : property.field.name ∉ done.map (·.field.name) := by
      intro inside
      rw [List.map_append, List.nodup_append] at distinct
      exact distinct.2.2 _ inside _ List.mem_cons_self rfl
    rw [collapsedInto, first, put_of_new new, ih _ rest, List.append_assoc, List.singleton_append]
    rwa [List.append_assoc, List.singleton_append]

/-- Properties with distinct names stay as they are if none of them has anything to collapse. -/
theorem collapsedInto_nil {properties : List Property}
    (distinct : (properties.map (·.field.name)).Nodup)
    (each : ∀ property ∈ properties, property.collapsed = property) :
    collapsedInto [] properties = properties :=
  collapsedInto_append distinct each

mutual

theorem collapsed_eq : (property : Property) → property.isCanonical = true →
    property.collapsed = property
  | plain _, _ => rfl
  | inline field properties, canonical => by
    rw [isCanonical, Bool.and_eq_true, Bool.and_eq_true, decide_eq_true_eq] at canonical
    obtain ⟨⟨-, distinct⟩, inside⟩ := canonical
    rw [collapsed, collapsedInto_nil distinct (collapsed_eq_of_mem properties inside)]

theorem collapsed_eq_of_mem : (properties : List Property) → areCanonical properties = true →
    ∀ property ∈ properties, property.collapsed = property
  | [], _ => List.forall_mem_nil _
  | property :: others, canonical => by
    rw [areCanonical, Bool.and_eq_true] at canonical
    exact List.forall_mem_cons.mpr
      ⟨collapsed_eq property canonical.1, collapsed_eq_of_mem others canonical.2⟩

end

mutual

theorem mapTypes_respelled_eq : (property : Property) → property.isCanonical = true →
    property.mapTypes TypeRef.respelled = property
  | plain field, canonical => by
    rw [mapTypes, TypeRef.respelled_eq canonical]
  | inline field properties, canonical => by
    rw [isCanonical, Bool.and_eq_true, Bool.and_eq_true] at canonical
    obtain ⟨⟨readable, -⟩, inside⟩ := canonical
    rw [mapTypes, TypeRef.respelled_eq readable, mapTypesOfAll_respelled_eq properties inside]

theorem mapTypesOfAll_respelled_eq : (properties : List Property) →
    areCanonical properties = true → mapTypesOfAll TypeRef.respelled properties = properties
  | [], _ => rfl
  | property :: others, canonical => by
    rw [areCanonical, Bool.and_eq_true] at canonical
    rw [mapTypesOfAll, mapTypes_respelled_eq property canonical.1,
      mapTypesOfAll_respelled_eq others canonical.2]

end

end Property

namespace Parameter

variable {parameter : Parameter}

/-- What becomes of a parameter whose first tag names a transport in its usual spelling. -/
theorem argumentOfParameter_of_first {tag : Tag} {others : List Tag}
    (tags : parameter.tags = tag :: others) (isTag : tag.isTransportTag = true) :
    Schema.transportTag (Schema.argumentOfParameter parameter) = tag
      ∧ (Schema.argumentOfParameter parameter).tags = others := by
  obtain ⟨transport, named, spelled⟩ := Tag.exists_of_isTransportTag isTag
  have found : Transport.find? parameter.tags = some (transport, tag) := by
    rw [tags, Transport.find?, List.findSome?_cons, named]
    rfl
  have argument : Schema.argumentOfParameter parameter
      = ⟨.ofTypeRef parameter.type, transport, tag.firstArgument?, tag.isOptional, others⟩ := by
    have erased : parameter.tags.erase tag = others := by rw [tags, List.erase_cons_head]
    simp only [Schema.argumentOfParameter, found, Option.map_some, Schema.withoutTag, erased]
    rfl
  rw [argument]
  exact ⟨spelled _ _, rfl⟩

theorem tags_explicit_of_first {hasVerb : Bool}
    (spells : Schema.spellsTransport hasVerb (Schema.argumentOfParameter parameter) = true)
    (first : parameter.tags.head?.any Tag.isTransportTag = true) :
    (parameter.explicit hasVerb).tags = parameter.tags := by
  rw [Option.any_eq_true] at first
  obtain ⟨tag, head, isTag⟩ := first
  obtain ⟨others, tags⟩ := List.head?_eq_some_iff.mp head
  obtain ⟨spelled, rest⟩ := argumentOfParameter_of_first tags isTag
  simp only [explicit, Schema.parameterOfArgument, spells, if_true, spelled, rest, tags,
    List.singleton_append]

theorem explicit_eq {hasVerb : Bool} (canonical : parameter.isCanonical hasVerb = true) :
    parameter.explicit hasVerb = parameter := by
  rw [isCanonical, Bool.and_eq_true] at canonical
  have tags : (parameter.explicit hasVerb).tags = parameter.tags := by
    cases hasVerb with
    | true => exact tags_explicit_of_first rfl canonical.2
    | false =>
      have spelled := canonical.2
      rw [if_neg Bool.false_ne_true, Bool.or_eq_true] at spelled
      rcases spelled with unsaid | first
      · rw [Option.isNone_iff_eq_none] at unsaid
        have argument : Schema.argumentOfParameter parameter
            = ⟨.ofTypeRef parameter.type, .fallback, none, false, parameter.tags⟩ := by
          simp only [Schema.argumentOfParameter, unsaid]
          rfl
        simp only [explicit, Schema.parameterOfArgument, argument]
        rfl
      · rw [Option.any_eq_true] at first
        obtain ⟨tag, head, isTag⟩ := first
        rw [Bool.and_eq_true, decide_eq_true_eq] at isTag
        obtain ⟨others, same⟩ := List.head?_eq_some_iff.mp head
        obtain ⟨spelled, -⟩ := argumentOfParameter_of_first same isTag.1
        have spells : Schema.spellsTransport false (Schema.argumentOfParameter parameter) = true := by
          by_contra unsaid
          rw [Bool.not_eq_true] at unsaid
          exact isTag.2 (spelled.symm.trans (Schema.transportTag_of_unsaid unsaid))
        apply tags_explicit_of_first spells
        rw [head, Option.any_some, isTag.1]
  rw [explicit] at tags ⊢
  exact congrArg (fun tags => { parameter with tags }) tags

end Parameter

namespace Method

variable {method : Method}

theorem tags_explicit (verb : method.verb?.isSome = true → method.tags.head?.any Tag.isVerbTag = true) :
    method.explicit.tags = method.tags := by
  cases found : method.verb? with
  | none =>
    simp only [explicit, Schema.methodOfOperation, Schema.operationOfMethod, found]
    rfl
  | some pair =>
    rw [found, Option.any_eq_true] at verb
    obtain ⟨tag, head, isTag⟩ := verb rfl
    obtain ⟨others, tags⟩ := List.head?_eq_some_iff.mp head
    obtain ⟨named, ofName, spelled⟩ := Tag.exists_of_isVerbTag isTag
    have first : method.verb? = some (named, tag) := by
      rw [verb?, tags, List.findSome?_cons, ofName]
      rfl
    simp only [explicit, Schema.methodOfOperation, Schema.operationOfMethod, first,
      Option.map_some, Option.bind_some, Schema.withoutTag, tags, List.erase_cons_head, spelled,
      Option.toList_some, List.singleton_append]

theorem explicit_eq (canonical : method.IsCanonical) : method.explicit = method := by
  have parameters : method.parameters.map (Parameter.explicit method.verb?.isSome)
      = method.parameters := by
    rw [List.map_congr_left fun parameter member =>
      Parameter.explicit_eq (canonical.parameters parameter member)]
    exact List.map_id' _
  have tags := tags_explicit canonical.verb
  rw [explicit, parameters] at tags ⊢
  exact congrArg (fun tags => { method with tags }) tags

end Method

namespace Entity

theorem asType?_eq_some {entities : List Entity} (canonical : AreCanonical entities) {entity : Entity}
    (member : entity ∈ entities) (isType : entity.kind ≠ .method) : entity.asType? = some entity := by
  cases entity with
  | comment text => exact absurd rfl (canonical.uncommented _ member)
  | method declared => exact absurd rfl isType
  | enumeration declared => rfl
  | dataType declared =>
    obtain ⟨distinct, inside⟩ := canonical.bodies declared member
    rw [asType?, Property.collapsedInto_nil distinct (Property.collapsed_eq_of_mem _ inside)]

theorem regenerated_eq {entities : List Entity} (canonical : AreCanonical entities) :
    regenerated entities = entities := by
  induction entities with
  | nil => rfl
  | cons entity others ih =>
    obtain ⟨uncommented, typesFirst, bodies, methods⟩ := canonical
    obtain ⟨behind, typesFirstBehind⟩ := List.pairwise_cons.mp typesFirst
    have rest := ih ⟨(List.forall_mem_cons.mp uncommented).2, typesFirstBehind,
      fun declared member => bodies declared (List.mem_cons_of_mem _ member),
      fun declared member => methods declared (List.mem_cons_of_mem _ member)⟩
    rw [regenerated] at rest ⊢
    by_cases isMethod : entity.kind = .method
    -- Behind a method there are only methods, so no type of the others moves in front of it.
    · have noTypes : others.filterMap asType? = [] := by
        rw [List.filterMap_eq_nil_iff]
        intro later member
        have isMethodLater := behind later member isMethod
        cases later with
        | comment | enumeration | dataType => cases isMethodLater
        | method declared => rfl
      cases entity with
      | comment | enumeration | dataType => cases isMethod
      | method declared =>
        have same := Method.explicit_eq (methods declared List.mem_cons_self)
        rw [noTypes, List.nil_append] at rest
        have kept : (Entity.method declared).asMethod? = some (.method declared) := by
          rw [asMethod?, same]
        rw [List.filterMap_cons_none rfl, noTypes, List.nil_append,
          List.filterMap_cons_some kept, rest]
    · have same :=
        asType?_eq_some ⟨uncommented, typesFirst, bodies, methods⟩ List.mem_cons_self isMethod
      have noMethod : entity.asMethod? = none := by
        cases entity with
        | comment | enumeration | dataType => rfl
        | method declared => exact absurd rfl isMethod
      rw [List.filterMap_cons_some same, List.filterMap_cons_none noMethod, List.cons_append, rest]

theorem mapTypes_respelled_eq {entities : List Entity} (canonical : AreCanonical entities)
    {entity : Entity} (member : entity ∈ entities) : entity.mapTypes TypeRef.respelled = entity := by
  cases entity with
  | comment | enumeration => rfl
  | dataType declared =>
    obtain ⟨-, inside⟩ := canonical.bodies declared member
    rw [mapTypes, Property.mapTypesOfAll_respelled_eq _ inside]
  | method declared =>
    obtain ⟨-, returned, -, parameters⟩ := canonical.methods declared member
    have same : declared.parameters.map (Parameter.mapType TypeRef.respelled)
        = declared.parameters := by
      have each : ∀ parameter ∈ declared.parameters,
          parameter.mapType TypeRef.respelled = parameter := by
        intro parameter inside
        have canonicalParameter := parameters parameter inside
        rw [Parameter.isCanonical, Bool.and_eq_true] at canonicalParameter
        rw [Parameter.mapType, TypeRef.respelled_eq canonicalParameter.1]
      rw [List.map_congr_left each]
      exact List.map_id' _
    rw [mapTypes, TypeRef.respelled_eq returned, same]

theorem hasDistinctParameters_of_canonical {entities : List Entity}
    (canonical : AreCanonical entities) {entity : Entity} (member : entity ∈ entities) :
    entity.hasDistinctParameters = true := by
  cases entity with
  | comment | enumeration | dataType => rfl
  | method declared => exact decide_eq_true (canonical.methods declared member).distinct

end Entity

namespace Schema

/-- Canonical entities come back from their schema. -/
theorem toEntities_ofEntities_of_canonical {entities : List Entity}
    (canonical : Entity.AreCanonical entities) : toEntities (ofEntities entities) = entities := by
  have distinct : ∀ entity ∈ entities, entity.hasDistinctParameters = true :=
    fun _ member => Entity.hasDistinctParameters_of_canonical canonical member
  have types : ∀ entity ∈ entities, entity.mapTypes TypeRef.respelled = entity :=
    fun _ member => Entity.mapTypes_respelled_eq canonical member
  rw [toEntities_ofEntities distinct, Entity.regenerated_eq canonical, List.map_congr_left types]
  exact List.map_id' _

/-- A deep type, a method with two verbs and further transports behind the first ones, and a method
without verb. -/
def canonicalEntities : List Entity :=
  [.dataType ⟨"Box", some " a", [⟨"@Table", ["x", "y"], ∅⟩],
      [.inline ⟨"kid", .listOf TypeRef.objectName, none, some "0.50", []⟩
        [.plain ⟨"bag", .mk "Map" true [.simple "string", .listOf "Box"], none, none, []⟩],
      .inline (.bare "none" (.simple "Box")) []]⟩,
    .enumeration ⟨"Kind", none, [], ["A", "A"]⟩,
    .method ⟨"getBox", none, [⟨"@GET", ["/boxes"], ∅⟩, ⟨"@POST", [], ∅⟩], .simple "Box",
      [⟨"id", .simple "string", [⟨"@Header", ["X-Id"], .ofList [("optional", "true")]⟩,
        ⟨"@Path", ["a", "b"], ∅⟩]⟩]⟩,
    .method ⟨"sum", none, [], .simple "integer",
      [⟨"a", .simple "integer", []⟩, ⟨"b", .simple "integer", [⟨"@Query", ["n"], ∅⟩]⟩]⟩]

theorem toEntities_ofEntities_of_canonicalEntities :
    Entity.AreCanonical canonicalEntities
      ∧ toEntities (ofEntities canonicalEntities) = canonicalEntities := by
  have canonical : Entity.AreCanonical canonicalEntities := by
    refine ⟨by decide, by decide, ?_, ?_⟩
    · intro declared member
      simp only [canonicalEntities, List.mem_cons, Entity.dataType.injEq, reduceCtorEq, or_false,
        List.not_mem_nil] at member
      subst member
      decide +kernel
    · intro declared member
      simp only [canonicalEntities, List.mem_cons, Entity.method.injEq, reduceCtorEq, false_or,
        or_false, List.not_mem_nil] at member
      rcases member with rfl | rfl
      · exact ⟨by decide +kernel, by decide +kernel, by decide +kernel, by decide +kernel⟩
      · exact ⟨by decide +kernel, by decide +kernel, by decide +kernel, by decide +kernel⟩
  exact ⟨canonical, toEntities_ofEntities_of_canonical canonical⟩

end Schema

end ApiDef
