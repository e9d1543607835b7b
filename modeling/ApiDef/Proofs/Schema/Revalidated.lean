import ApiDef.Proofs.Check.Walk
import ApiDef.Proofs.Schema.Regenerated
set_option autoImplicit false

/-!
# Regenerated entities are valid

Regenerated entities can be spelled and nest no deeper than before, and where nothing is wrong with
the entities, nothing is wrong with what they are regenerated to. Types that were known where a
method stood are known behind all types, and the tags that are spelled out belong to REST.
-/

namespace ApiDef

open Text

/-!
## Collapsed properties
-/

namespace Property

mutual

theorem isWellFormed_collapsed : (property : Property) → property.isWellFormed = true →
    property.collapsed.isWellFormed = true
  | .plain _, valid => valid
  | .inline field properties, valid => by
    rw [isWellFormed, Bool.and_eq_true] at valid
    have body := isWellFormed_collapsed_of_mem properties valid.2
    rw [collapsed, isWellFormed, Bool.and_eq_true, areWellFormed_iff]
    exact ⟨valid.1, forall_mem_collapsedInto (List.forall_mem_nil _) body⟩

theorem isWellFormed_collapsed_of_mem : (properties : List Property) →
    areWellFormed properties = true → ∀ property ∈ properties, property.collapsed.isWellFormed = true
  | [], _ => List.forall_mem_nil _
  | property :: others, valid => by
    rw [areWellFormed, Bool.and_eq_true] at valid
    exact List.forall_mem_cons.mpr
      ⟨isWellFormed_collapsed property valid.1, isWellFormed_collapsed_of_mem others valid.2⟩

end

theorem bodyNesting_collapsedInto {properties : List Property}
    (each : ∀ property ∈ properties, property.collapsed.nesting ≤ property.nesting) :
    bodyNesting (collapsedInto [] properties) ≤ bodyNesting properties := by
  obtain ⟨levels, same⟩ := Nat.exists_eq_succ_of_ne_zero (Nat.ne_of_gt (bodyNesting_pos properties))
  have before := bodyNesting_le_iff.mp (Nat.le_of_eq same)
  rw [same]
  apply bodyNesting_le_iff.mpr
  refine forall_mem_collapsedInto (List.forall_mem_nil _) ?_
  intro property member
  exact Nat.le_trans (each property member) (before property member)

mutual

theorem nesting_collapsed : (property : Property) → property.collapsed.nesting ≤ property.nesting
  | .plain _ => Nat.le_refl _
  | .inline _ properties => bodyNesting_collapsedInto (nesting_collapsed_of_mem properties)

theorem nesting_collapsed_of_mem : (properties : List Property) →
    ∀ property ∈ properties, property.collapsed.nesting ≤ property.nesting
  | [] => List.forall_mem_nil _
  | property :: others =>
    List.forall_mem_cons.mpr ⟨nesting_collapsed property, nesting_collapsed_of_mem others⟩

end

/-- Nothing is wrong with a property or with those inside it. -/
def IsClean (options : Options) (table : TypeTable) (property : Property) : Prop :=
  property.preorder.flatMap (Walk.propertyIssues options table) = []

variable {options : Options} {table : TypeTable}

theorem flatMap_preorderOfAll_iff {properties : List Property} :
    (preorderOfAll properties).flatMap (Walk.propertyIssues options table) = []
      ↔ ∀ property ∈ properties, property.IsClean options table := by
  induction properties with
  | nil => simp [preorderOfAll]
  | cons property others ih =>
    rw [preorderOfAll, List.flatMap_append, List.append_eq_nil_iff, ih, List.forall_mem_cons]
    rfl

theorem isClean_inline_iff {field : Field} {properties : List Property} :
    (inline field properties).IsClean options table
      ↔ Walk.tagIssues options .field field.tags = []
        ∧ ∀ property ∈ properties, property.IsClean options table := by
  rw [IsClean, preorder, List.flatMap_cons, List.append_eq_nil_iff, flatMap_preorderOfAll_iff]
  simp [Walk.propertyIssues, Property.field, isInline]

mutual

theorem isClean_collapsed : (property : Property) → property.IsClean options table →
    property.collapsed.IsClean options table
  | .plain _, clean => clean
  | .inline field properties, clean => by
    obtain ⟨tags, body⟩ := isClean_inline_iff.mp clean
    have inside := isClean_collapsed_of_mem properties body
    exact isClean_inline_iff.mpr ⟨tags, forall_mem_collapsedInto (List.forall_mem_nil _) inside⟩

theorem isClean_collapsed_of_mem : (properties : List Property) →
    (∀ property ∈ properties, property.IsClean options table) →
    ∀ property ∈ properties, property.collapsed.IsClean options table
  | [], _ => List.forall_mem_nil _
  | property :: others, clean => by
    obtain ⟨first, rest⟩ := List.forall_mem_cons.mp clean
    exact List.forall_mem_cons.mpr
      ⟨isClean_collapsed property first, isClean_collapsed_of_mem others rest⟩

end

end Property

/-!
## Explicit methods
-/

namespace Parameter

variable {hasVerb : Bool} {parameter : Parameter} {tag : Tag}

theorem mem_tags_explicit (member : tag ∈ (parameter.explicit hasVerb).tags) :
    tag = Schema.transportTag (Schema.argumentOfParameter parameter) ∨ tag ∈ parameter.tags := by
  have kept : ∀ found, tag ∈ Schema.withoutTag parameter.tags found → tag ∈ parameter.tags := by
    intro found inside
    cases found with
    | none => exact inside
    | some first => exact List.mem_of_mem_erase inside
  simp only [explicit, Schema.parameterOfArgument, List.mem_append] at member
  rcases member with spelled | inside
  · split at spelled
    · exact .inl (List.mem_singleton.mp spelled)
    · cases spelled
  · exact .inr (kept _ inside)

theorem find?_tags_explicit (parameter : Parameter) :
    Transport.find? (parameter.explicit true).tags
      = some (parameter.transport,
          Schema.transportTag (Schema.argumentOfParameter parameter)) := by
  have named : Transport.ofName? (Schema.transportTag (Schema.argumentOfParameter parameter)).name
      = some parameter.transport := by
    change Transport.ofName? parameter.transport.tagName = _
    cases parameter.transport <;> decide
  simp only [explicit, Schema.parameterOfArgument, Schema.spellsTransport, Bool.true_or, if_true,
    List.singleton_append, Transport.find?, List.findSome?_cons, named, Option.map_some]

theorem pathVariable?_explicit (parameter : Parameter) :
    (parameter.explicit true).pathVariable? = parameter.pathVariable? := by
  have identifier : (Schema.transportTag (Schema.argumentOfParameter parameter)).firstArgument?
      = ((Transport.find? parameter.tags).map (·.2)).bind Tag.firstArgument? := by
    change (Schema.argumentOfParameter parameter).identifier.toList.head? = _
    rw [Option.head?_toList]
    rfl
  rw [pathVariable?, find?_tags_explicit, pathVariable?, transport]
  cases found : Transport.find? parameter.tags with
  | none => rfl
  | some pair =>
    obtain ⟨transport, first⟩ := pair
    rw [found] at identifier
    cases transport with
    | path => exact congrArg (fun name => some (name.getD parameter.name)) identifier
    | header | query | body => rfl

end Parameter

namespace Method

variable {method : Method} {tag : Tag}

theorem mem_tags_explicit (member : tag ∈ method.explicit.tags) :
    (∃ path verb, tag = Schema.verbTag path verb) ∨ tag ∈ method.tags := by
  simp only [explicit, Schema.methodOfOperation, Schema.operationOfMethod, List.mem_append,
    Option.mem_toList, Option.map_map, Option.map_eq_some_iff] at member
  rcases member with ⟨pair, -, rfl⟩ | inside
  · exact .inl ⟨_, _, rfl⟩
  · cases found : method.verb? with
    | none =>
      rw [found] at inside
      exact .inr inside
    | some pair =>
      rw [found] at inside
      exact .inr (List.mem_of_mem_erase inside)

/-- The verb stays, and so does the path of the tag that names it. -/
theorem verb?_explicit (method : Method) :
    method.explicit.verb?
      = method.verb?.map fun (verb, tag) => (verb, Schema.verbTag tag.firstArgument? verb) := by
  cases found : method.verb? with
  | none =>
    have same : method.explicit.tags = method.tags := by
      simp only [explicit, Schema.methodOfOperation, Schema.operationOfMethod, found]
      rfl
    rw [verb?, same]
    exact found
  | some pair =>
    obtain ⟨verb, tag⟩ := pair
    have front : method.explicit.tags
        = Schema.verbTag tag.firstArgument? verb :: method.tags.erase tag := by
      simp only [explicit, Schema.methodOfOperation, Schema.operationOfMethod, found]
      rfl
    have named : Verb.ofName? (Schema.verbTag tag.firstArgument? verb).name = some verb := by
      change Verb.ofName? verb.tagName = _
      cases verb <;> decide
    rw [verb?, front, List.findSome?_cons, named]
    rfl

end Method

/-!
## Well-formed entities
-/

theorem Schema.isWellFormed_verbTag (path : Option String) (verb : Verb) :
    (verbTag path verb).isWellFormed = true := by
  have bare : (verbTag none verb).isWellFormed = true := by
    cases verb <;> decide
  exact bare

theorem Schema.isWellFormed_transportTag (argument : Argument) :
    (transportTag argument).isWellFormed = true := by
  obtain ⟨shape, transport, identifier, isOptional, tags⟩ := argument
  have bare : (transportTag ⟨.primitive "", transport, none, isOptional, []⟩).isWellFormed = true := by
    cases transport <;> cases isOptional <;> decide
  exact bare

theorem Parameter.isWellFormed_explicit (hasVerb : Bool) {parameter : Parameter}
    (valid : parameter.isWellFormed = true) : (parameter.explicit hasVerb).isWellFormed = true := by
  simp only [isWellFormed, Bool.and_eq_true, List.all_eq_true] at valid ⊢
  refine ⟨valid.1, ?_⟩
  intro tag member
  rcases mem_tags_explicit member with rfl | inside
  · exact Schema.isWellFormed_transportTag _
  · exact valid.2 tag inside

namespace Entity

theorem isWellFormed_asType? {entity type : Entity} (valid : entity.isWellFormed = true)
    (found : entity.asType? = some type) : type.isWellFormed = true := by
  cases entity with
  | comment | method => cases found
  | enumeration declared =>
    cases found
    exact valid
  | dataType declared =>
    cases found
    simp only [isWellFormed, Bool.and_eq_true, Property.areWellFormed_iff] at valid ⊢
    refine ⟨valid.1, Property.forall_mem_collapsedInto (List.forall_mem_nil _) ?_⟩
    exact Property.isWellFormed_collapsed_of_mem _ (Property.areWellFormed_iff.mpr valid.2)

theorem isWellFormed_explicit {declared : Method} (valid : (method declared).isWellFormed = true) :
    (method declared.explicit).isWellFormed = true := by
  simp only [isWellFormed, Bool.and_eq_true, List.all_eq_true] at valid ⊢
  obtain ⟨⟨⟨named, tags⟩, parameters⟩, returned⟩ := valid
  refine ⟨⟨⟨named, ?_⟩, ?_⟩, returned⟩
  · intro tag member
    rcases Method.mem_tags_explicit member with ⟨path, verb, rfl⟩ | inside
    · exact Schema.isWellFormed_verbTag path verb
    · exact tags tag inside
  · intro parameter member
    obtain ⟨original, inside, rfl⟩ := List.mem_map.mp member
    exact Parameter.isWellFormed_explicit _ (parameters original inside)

theorem nesting_asType? {entity type : Entity} (found : entity.asType? = some type) :
    type.nesting ≤ entity.nesting := by
  cases entity with
  | comment | method => cases found
  | enumeration declared =>
    cases found
    exact Nat.le_refl _
  | dataType declared =>
    cases found
    exact Property.bodyNesting_collapsedInto (Property.nesting_collapsed_of_mem _)

theorem nesting_explicit (declared : Method) : declared.explicit.nesting ≤ declared.nesting := by
  obtain ⟨parameters, returned⟩ := Method.nesting_le_iff.mp (Nat.le_refl declared.nesting)
  apply Method.nesting_le_iff.mpr
  refine ⟨?_, returned⟩
  intro parameter member
  obtain ⟨original, inside, rfl⟩ := List.mem_map.mp member
  exact parameters original inside

/-- Regenerated entities are of the kinds of the entities, are well-formed as those are, and nest no
deeper. -/
theorem forall_mem_regenerated {good : Entity → Prop} {entities : List Entity}
    (types : ∀ entity ∈ entities, ∀ type, entity.asType? = some type → good type)
    (methods : ∀ declared, method declared ∈ entities → good (method declared.explicit)) :
    ∀ entity ∈ regenerated entities, good entity := by
  intro entity member
  rcases List.mem_append.mp member with inTypes | inMethods
  · obtain ⟨original, inside, found⟩ := List.mem_filterMap.mp inTypes
    exact types original inside entity found
  · obtain ⟨original, inside, found⟩ := List.mem_filterMap.mp inMethods
    cases original with
    | comment | enumeration | dataType => cases found
    | method declared =>
      cases found
      exact methods declared inside

theorem isWellFormed_regenerated {entities : List Entity}
    (valid : ∀ entity ∈ entities, entity.isWellFormed = true) :
    ∀ entity ∈ regenerated entities, entity.isWellFormed = true := by
  apply forall_mem_regenerated
  · intro entity member type found
    exact isWellFormed_asType? (valid entity member) found
  · intro declared member
    exact isWellFormed_explicit (valid _ member)

theorem isAllowed_regenerated {grammar : Grammar} {entities : List Entity}
    (allowed : ∀ entity ∈ entities, entity.isAllowed grammar = true) :
    ∀ entity ∈ regenerated entities, entity.isAllowed grammar = true := by
  apply forall_mem_regenerated
  · intro entity member type found
    have types := allowed entity member
    cases entity with
    | comment | method => cases found
    | enumeration | dataType =>
      cases found
      exact types
  · intro declared member
    have methods := allowed (.method declared) member
    exact methods

theorem nestingOfAll_regenerated {entities : List Entity} {levels : Nat}
    (fits : nestingOfAll entities ≤ levels) : nestingOfAll (regenerated entities) ≤ levels := by
  have each := nestingOfAll_le_iff.mp fits
  apply nestingOfAll_le_iff.mpr
  apply forall_mem_regenerated
  · intro entity member type found
    exact Nat.le_trans (nesting_asType? found) (each entity member)
  · intro declared member
    exact Nat.le_trans (nesting_explicit declared) (each _ member)

end Entity

/-!
## Tables that know more
-/

namespace TypeTable

/-- What one table knows, another one knows as well. -/
def Within (table larger : TypeTable) : Prop :=
  ∀ name arity, table.arity? name = some arity → larger.arity? name = some arity

theorem Within.refl (table : TypeTable) : table.Within table := fun _ _ known => known

theorem Within.trans {first second third : TypeTable} (left : first.Within second)
    (right : second.Within third) : first.Within third :=
  fun name arity known => right name arity (left name arity known)

theorem arity?_insert (table : TypeTable) (name other : String) (arity : Nat) :
    (table.insert name arity).arity? other
      = if other = name then some arity else table.arity? other := by
  rw [arity?, insert, List.lookup_cons]
  split
  next same => rw [if_pos (beq_iff_eq.mp same)]
  next different =>
    rw [if_neg (beq_eq_false_iff_ne.mp different)]
    rfl

theorem within_declare (table : TypeTable) (name : String) : table.Within (table.declare name) := by
  intro other arity known
  unfold declare
  split
  next => exact known
  next new =>
    have different : other ≠ name := by
      rintro rfl
      rw [contains, known] at new
      exact new rfl
    rwa [arity?_insert, if_neg different]

end TypeTable

namespace Walk

variable {options : Options} {patternFault? : String → Option String} {table larger : TypeTable}

theorem within_tableAfter (table : TypeTable) (entity : Entity) :
    table.Within (tableAfter table entity) := by
  cases entity with
  | comment | method => exact .refl table
  | enumeration declared => exact table.within_declare declared.name
  | dataType declared => exact table.within_declare declared.name

/-- The types that are known after several entities. -/
def tableAfterAll (table : TypeTable) (entities : List Entity) : TypeTable :=
  entities.foldl tableAfter table

theorem within_tableAfterAll (table : TypeTable) (entities : List Entity) :
    table.Within (tableAfterAll table entities) := by
  induction entities generalizing table with
  | nil => exact .refl table
  | cons entity others ih => exact (within_tableAfter table entity).trans (ih _)

theorem issuesAmong_append (first second : List Entity) :
    issuesAmong options patternFault? table (first ++ second)
      = issuesAmong options patternFault? table first
        ++ issuesAmong options patternFault? (tableAfterAll table first) second := by
  induction first generalizing table with
  | nil => rfl
  | cons entity others ih =>
    rw [List.cons_append, issuesAmong, issuesAmong, ih, List.append_assoc]
    rfl

theorem typeIssues_within (within : table.Within larger) {type : TypeRef}
    (clean : typeIssues table type = []) : typeIssues larger type = [] := by
  rw [typeIssues_eq_nil_iff] at clean ⊢
  intro node member
  exact within _ _ (clean node member)

/-!
## Tags and routes
-/

theorem tagIssues_eq_nil_iff {site : Site} {tags : List Tag} :
    tagIssues options site tags = []
      ↔ ∀ tag ∈ tags, Question.tagIssue? options site tag = none :=
  List.filterMap_eq_nil_iff

/-- A tag of the vocabulary of REST may stand where it belongs. -/
theorem tagIssue?_of_rest (rest : options.rest = true) {site : Site} {tag : Tag}
    (known : tag.name ∈ Options.restNames site) : Question.tagIssue? options site tag = none := by
  have allowed : tag.name ∈ options.allowedTags site := by
    rw [Options.allowedTags, rest, if_pos rfl]
    exact List.mem_append_right _ known
  exact Question.tagIssue?_eq_none_iff.mpr ⟨tag.name, allowed, decide_eq_true rfl⟩

theorem parameterIssues_explicit (rest : options.rest = true) (within : table.Within larger)
    (hasVerb : Bool) {parameter : Parameter} (clean : parameterIssues options table parameter = []) :
    parameterIssues options larger (parameter.explicit hasVerb) = [] := by
  obtain ⟨tags, type⟩ := List.append_eq_nil_iff.mp clean
  rw [tagIssues_eq_nil_iff] at tags
  apply List.append_eq_nil_iff.mpr
  constructor
  · apply tagIssues_eq_nil_iff.mpr
    intro tag member
    rcases Parameter.mem_tags_explicit member with rfl | inside
    · apply tagIssue?_of_rest rest
      change (Schema.argumentOfParameter parameter).transport.tagName ∈ _
      cases (Schema.argumentOfParameter parameter).transport <;> decide
    · exact tags tag inside
  · exact typeIssues_within within type

theorem variableIssue?_explicit (parameters : List Parameter) (bound : PathVariable) :
    Route.variableIssue? patternFault? (parameters.map (Parameter.explicit true)) bound
      = Route.variableIssue? patternFault? parameters bound := by
  have same : (parameters.map (Parameter.explicit true)).any
        (fun parameter => parameter.pathVariable? = some bound.name)
      = parameters.any fun parameter => parameter.pathVariable? = some bound.name := by
    rw [List.any_map]
    simp only [Function.comp_def, Parameter.pathVariable?_explicit]
  simp only [Route.variableIssue?, same]

theorem parameterIssue?_explicit (bound : List PathVariable) (parameter : Parameter) :
    Route.parameterIssue? bound (parameter.explicit true) = Route.parameterIssue? bound parameter := by
  have sameType : (parameter.explicit true).type = parameter.type := rfl
  simp only [Route.parameterIssue?, Parameter.pathVariable?_explicit, sameType]

/-- Spelling out its verb and transports does not change what is wrong with a route. -/
theorem routeIssue?_explicit (method : Method) :
    method.explicit.routeIssue? patternFault? = method.routeIssue? patternFault? := by
  unfold Method.routeIssue?
  rw [Method.verb?_explicit]
  cases found : method.verb? with
  | none => rfl
  | some pair =>
    obtain ⟨verb, tag⟩ := pair
    have path : (Schema.verbTag tag.firstArgument? verb).firstArgument? = tag.firstArgument? :=
      Option.head?_toList
    have parameters : method.explicit.parameters
        = method.parameters.map (Parameter.explicit true) := by
      simp only [Method.explicit, found, Option.isSome_some]
    simp only [Option.map_some, path, parameters, List.findSome?_map, Function.comp_def,
      parameterIssue?_explicit, funext (variableIssue?_explicit method.parameters)]

/-!
## Issues of regenerated entities
-/

theorem entityIssues_asType? {entity type : Entity} (found : entity.asType? = some type)
    (clean : entityIssues options patternFault? table entity = []) :
    entityIssues options patternFault? table type = [] := by
  cases entity with
  | comment | method => cases found
  | enumeration declared =>
    cases found
    exact clean
  | dataType declared =>
    cases found
    obtain ⟨tags, body⟩ := List.append_eq_nil_iff.mp clean
    rw [Property.flatMap_preorderOfAll_iff] at body
    apply List.append_eq_nil_iff.mpr
    refine ⟨tags, Property.flatMap_preorderOfAll_iff.mpr ?_⟩
    exact Property.forall_mem_collapsedInto (List.forall_mem_nil _)
      (Property.isClean_collapsed_of_mem _ body)

theorem tableAfter_asType? {entity type : Entity} (found : entity.asType? = some type) :
    tableAfter table type = tableAfter table entity := by
  cases entity with
  | comment | method => cases found
  | enumeration | dataType =>
    cases found
    rfl

theorem tableAfter_of_asType?_none {entity : Entity} (none : entity.asType? = none) :
    tableAfter table entity = table := by
  cases entity with
  | comment | method => rfl
  | enumeration | dataType => cases none

/-- The types among the entities declare what the entities declare. -/
theorem tableAfterAll_types (table : TypeTable) (entities : List Entity) :
    tableAfterAll table (entities.filterMap Entity.asType?) = tableAfterAll table entities := by
  induction entities generalizing table with
  | nil => rfl
  | cons entity others ih =>
    have rest := ih (tableAfter table entity)
    cases found : entity.asType? with
    | none =>
      rw [tableAfter_of_asType?_none found] at rest
      rw [List.filterMap_cons_none found, rest, tableAfterAll, tableAfterAll, List.foldl_cons,
        tableAfter_of_asType?_none found]
    | some type =>
      rw [List.filterMap_cons_some found, tableAfterAll, List.foldl_cons, tableAfter_asType? found]
      exact rest

theorem issuesAmong_types {entities : List Entity}
    (clean : issuesAmong options patternFault? table entities = []) :
    issuesAmong options patternFault? table (entities.filterMap Entity.asType?) = [] := by
  induction entities generalizing table with
  | nil => rfl
  | cons entity others ih =>
    obtain ⟨first, rest⟩ := List.append_eq_nil_iff.mp clean
    cases found : entity.asType? with
    | none =>
      rw [tableAfter_of_asType?_none found] at rest
      rw [List.filterMap_cons_none found]
      exact ih rest
    | some type =>
      rw [List.filterMap_cons_some found, issuesAmong, entityIssues_asType? found first,
        tableAfter_asType? found]
      exact ih rest

theorem entityIssues_explicit (rest : options.rest = true) (within : table.Within larger)
    {declared : Method} (clean : entityIssues options patternFault? table (.method declared) = []) :
    entityIssues options patternFault? larger (.method declared.explicit) = [] := by
  simp only [entityIssues, List.append_eq_nil_iff, List.flatMap_eq_nil_iff] at clean ⊢
  obtain ⟨⟨⟨tags, parameters⟩, returned⟩, route⟩ := clean
  refine ⟨⟨⟨?_, ?_⟩, typeIssues_within within returned⟩, ?_⟩
  · rw [tagIssues_eq_nil_iff] at tags ⊢
    intro tag member
    rcases Method.mem_tags_explicit member with ⟨path, verb, rfl⟩ | inside
    · apply tagIssue?_of_rest rest
      change verb.tagName ∈ _
      cases verb <;> decide
    · exact tags tag inside
  · intro parameter member
    obtain ⟨original, inside, rfl⟩ := List.mem_map.mp member
    exact parameterIssues_explicit rest within _ (parameters original inside)
  -- The spelled-out verb is the verb that was found, so the route is asked for as before.
  · have hasVerb : declared.explicit.verb?.isSome = declared.verb?.isSome := by
      rw [Method.verb?_explicit, Option.isSome_map]
    rw [routeIssues, hasVerb, routeIssue?_explicit]
    exact route

theorem issuesAmong_methods (rest : options.rest = true) {entities : List Entity}
    (clean : issuesAmong options patternFault? table entities = [])
    (within : (tableAfterAll table entities).Within larger) :
    issuesAmong options patternFault? larger (entities.filterMap Entity.asMethod?) = [] := by
  -- The tables before the entities differ along the list, the table of all of them does not: methods
  -- are regenerated behind every type.
  induction entities generalizing table with
  | nil => rfl
  | cons entity others ih =>
    obtain ⟨first, later⟩ := List.append_eq_nil_iff.mp clean
    have behind := ih later within
    cases entity with
    | comment | enumeration | dataType => exact behind
    | method declared =>
      have here : table.Within larger := (within_tableAfterAll table _).trans within
      have front := entityIssues_explicit rest here first
      exact List.append_eq_nil_iff.mpr ⟨front, behind⟩

/-- Where nothing is wrong with entities, nothing is wrong with what they are regenerated to. -/
theorem issues_regenerated (rest : options.rest = true) {entities : List Entity}
    (clean : issues options patternFault? entities = []) :
    issues options patternFault? (Entity.regenerated entities) = [] := by
  rw [issues, Entity.regenerated, issuesAmong_append, tableAfterAll_types]
  apply List.append_eq_nil_iff.mpr
  constructor
  · exact issuesAmong_types clean
  · exact issuesAmong_methods rest clean (.refl _)

end Walk

end ApiDef
