import ApiDef.Schema.Conversion
import ApiDef.Proofs.Document.Findings
import ApiDef.Proofs.Schema.Decoding
set_option autoImplicit false

/-!
# How deep schemas nest

Bodies that stand inside one another take two levels of JSON each, so the nesting limit of texts and
the level limit of JSON are different limits: there are texts within the first whose schema is beyond
the second.
-/

namespace ApiDef

open Json

namespace Schema

theorem depth_ofElement (type : TypeRef) : (Shape.ofElement type).toJson.depth ≤ 1 := by
  unfold Shape.ofElement
  split
  · exact Nat.zero_le 1
  · exact Nat.le_refl 1

theorem depth_ofTypeRef (type : TypeRef) : (Shape.ofTypeRef type).toJson.depth ≤ 2 := by
  have element := depth_ofElement type
  unfold Shape.ofTypeRef
  split
  · simp only [Shape.toJson, depth, depthOfMembers, Nat.zero_max, Nat.max_zero]
    omega
  · omega

theorem depth_texts (texts : List String) : depth (.array (texts.map .string)) ≤ 1 := by
  rw [depth, Nat.add_le_add_iff_right, depthOfElements_le_iff, List.forall_mem_map]
  intro text _
  exact Nat.le_refl 0

theorem depth_tagJson (tag : Tag) : (tagJson tag).depth ≤ 2 := by
  have options : ∀ field ∈ optionsField tag.options, field.2.depth ≤ 1 := by
    unfold optionsField
    split
    · exact List.forall_mem_nil _
    · rw [List.forall_mem_singleton, depth, Nat.add_le_add_iff_right, depthOfMembers_le_iff,
        List.forall_mem_map]
      intro entry _
      exact Nat.le_refl 0
  rw [tagJson, depth, Nat.add_le_add_iff_right, depthOfMembers_le_iff, List.forall_mem_cons,
    List.forall_mem_append]
  exact ⟨Nat.zero_le 1, forall_listField (depth_texts tag.arguments), options⟩

theorem depth_tags (tags : List Tag) : depth (.array (tags.map tagJson)) ≤ 3 := by
  rw [depth, Nat.add_le_add_iff_right, depthOfElements_le_iff, List.forall_mem_map]
  intro tag _
  exact depth_tagJson tag

theorem depth_partsFields (field : Field) :
    ∀ entry ∈ partsFields (partsOfField field), entry.2.depth ≤ 3 := by
  have shape := depth_ofTypeRef field.type
  rw [partsFields, List.forall_mem_cons, List.forall_mem_append, List.forall_mem_append]
  refine ⟨Nat.le_succ_of_le shape, ?_, ?_, forall_listField (depth_tags field.tags)⟩
  · exact forall_optionalField fun _ => Nat.zero_le 3
  · exact forall_optionalField fun _ => Nat.zero_le 3

/-- A last field behind fields that are not deep. -/
theorem depth_object_append_le {fields : List (String × Json)} {key : String} {json : Json}
    {levels : Nat} (shallow : ∀ field ∈ fields, field.2.depth ≤ 3) (enough : 3 ≤ levels)
    (last : json.depth ≤ levels) : depth (.object (fields ++ [(key, json)])) ≤ levels + 1 := by
  rw [depth, Nat.add_le_add_iff_right, depthOfMembers_append, Nat.max_le]
  constructor
  · exact Nat.le_trans (depthOfMembers_le_iff.mpr shallow) enough
  · exact depthOfMembers_le_iff.mpr (List.forall_mem_singleton.mpr last)

theorem depth_members_le {members : Bag Member} {levels : Nat}
    (each : ∀ entry ∈ members.entries, (memberJson entry.2).depth ≤ levels) :
    depth (.object (rowJson members.row)) ≤ levels + 1 := by
  rw [depth, Nat.add_le_add_iff_right, rowJson_eq_map, depthOfMembers_le_iff, List.forall_mem_map]
  exact each

mutual

theorem depth_memberOfProperty : (property : Property) →
    (memberJson (memberOfProperty property)).depth ≤ 2 * property.nesting + 4
  | .plain field => by
    have fields := depthOfMembers_le_iff.mpr (depth_partsFields field)
    rw [memberOfProperty, memberJson, depth]
    omega
  | .inline field properties => by
    -- A body takes one level for its member and one for the bag inside.
    have body := depth_members_le (depth_membersOfProperties ∅ properties
      (2 * Property.bodyNesting properties + 2) (Nat.le_refl _) (List.forall_mem_nil _))
    exact depth_object_append_le (depth_partsFields field) (Nat.le_add_left 3 _) body

theorem depth_membersOfProperties (bag : Bag Member) : (properties : List Property) → ∀ levels,
    2 * Property.bodyNesting properties + 2 ≤ levels →
    (∀ entry ∈ bag.entries, (memberJson entry.2).depth ≤ levels) →
    ∀ entry ∈ (membersOfProperties bag properties).entries, (memberJson entry.2).depth ≤ levels
  | [], _, _, held => held
  | property :: others, levels, enough, held => by
    rw [Property.bodyNesting] at enough
    have new := depth_memberOfProperty property
    have first : (memberJson (memberOfProperty property)).depth ≤ levels := by omega
    rw [membersOfProperties]
    refine depth_membersOfProperties _ others levels ?_ (Bag.forall_mem_insert held first)
    omega

end

theorem depth_typeFields (word name : String) (description : Option String) (tags : List Tag) :
    ∀ field ∈ [("type", .string word), ("name", .string name)] ++ descriptionField description
      ++ tagsField tags, field.2.depth ≤ 3 := by
  rw [List.forall_mem_append, List.forall_mem_append, List.forall_mem_cons,
    List.forall_mem_singleton]
  refine ⟨⟨⟨Nat.zero_le 3, Nat.zero_le 3⟩, ?_⟩, forall_listField (depth_tags tags)⟩
  exact forall_optionalField fun _ => Nat.zero_le 3

theorem depth_typeOfEntity {entity : Entity} {entry : TypeEntry}
    (found : typeOfEntity? entity = some entry) : entry.toJson.depth ≤ 2 * entity.nesting + 4 := by
  cases entity with
  | comment | method => cases found
  | enumeration declared =>
    cases found
    have values : (textsJson declared.values).depth ≤ 3 :=
      Nat.le_trans (depth_texts declared.values) (by decide)
    exact depth_object_append_le (depth_typeFields _ _ _ _) (Nat.le_refl 3) values
  | dataType declared =>
    cases found
    have body := depth_members_le (depth_membersOfProperties ∅ declared.properties
      (2 * Property.bodyNesting declared.properties + 2) (Nat.le_refl _) (List.forall_mem_nil _))
    exact depth_object_append_le (depth_typeFields _ _ _ _) (Nat.le_add_left 3 _) body

theorem depth_argumentOfParameter (parameter : Parameter) :
    (argumentOfParameter parameter).toJson.depth ≤ 4 := by
  have shape := depth_ofTypeRef parameter.type
  rw [Argument.toJson, depth, Nat.add_le_add_iff_right, depthOfMembers_le_iff]
  simp only [List.forall_mem_append, List.forall_mem_cons]
  refine ⟨⟨⟨⟨Nat.le_succ_of_le shape, Nat.zero_le 3, List.forall_mem_nil _⟩, ?_⟩, Nat.zero_le 3,
    List.forall_mem_nil _⟩, forall_listField (depth_tags _)⟩
  exact forall_optionalField fun _ => Nat.zero_le 3

theorem depth_operationOfMethod (method : Method) : (operationOfMethod method).toJson.depth ≤ 6 := by
  have response := depth_ofTypeRef method.returnType
  have arguments : ((argumentsOfParameters method.parameters).toJson Argument.toJson).depth ≤ 5 := by
    rw [Bag.toJson, depth, Nat.add_le_add_iff_right, depthOfMembers_le_iff, List.forall_mem_map]
    apply Bag.forall_mem_ofList
    rw [List.forall_mem_map]
    intro parameter _
    exact depth_argumentOfParameter parameter
  rw [Operation.toJson, depth, Nat.add_le_add_iff_right, depthOfMembers_le_iff]
  simp only [List.forall_mem_append, List.forall_mem_cons]
  refine ⟨⟨⟨⟨⟨⟨Nat.zero_le 5, List.forall_mem_nil _⟩, ?_⟩, ?_⟩, ?_⟩, arguments,
    Nat.le_trans response (by decide), List.forall_mem_nil _⟩, ?_⟩
  · exact forall_optionalField fun _ => Nat.zero_le 5
  · exact forall_optionalField fun _ => Nat.zero_le 5
  · exact forall_optionalField fun _ => Nat.zero_le 5
  · exact forall_listField (Nat.le_trans (depth_tags _) (by decide))

/-- The JSON form of a schema has two levels for each level of the entities, and six more. -/
theorem depth_ofEntities (entities : List Entity) :
    (ofEntities entities).toJson.depth ≤ max 8 (2 * Entity.nestingOfAll entities + 6) := by
  have types : ∀ json ∈ (entities.filterMap typeOfEntity?).map TypeEntry.toJson,
      json.depth ≤ 2 * Entity.nestingOfAll entities + 4 := by
    rw [List.forall_mem_map]
    intro entry member
    obtain ⟨entity, inside, found⟩ := List.mem_filterMap.mp member
    have bound := depth_typeOfEntity found
    have nesting := Entity.nestingOfAll_le_iff.mp (Nat.le_refl _) entity inside
    omega
  have operations : ∀ json ∈ (entities.filterMap operationOfEntity?).map Operation.toJson,
      json.depth ≤ 6 := by
    rw [List.forall_mem_map]
    intro operation member
    obtain ⟨entity, -, found⟩ := List.mem_filterMap.mp member
    cases entity with
    | comment | enumeration | dataType => cases found
    | method declared =>
      cases found
      exact depth_operationOfMethod declared
  have typesBound := depthOfElements_le_iff.mpr types
  have operationsBound := depthOfElements_le_iff.mpr operations
  simp only [ofEntities, toJson, depth, depthOfMembers]
  omega

/-- A text within the default nesting limit gives a schema of at most 134 levels. Its JSON form is
read back when it has fewer than 128, and refused otherwise. -/
theorem read_write_ofEntities_of_read {patternFault? : String → Option String} {options : Options}
    {text : String} {document : Document}
    (accepted : Document.readWith patternFault? options text = .ok document)
    (limit : options.maxNestingDepth = Options.defaultNestingDepth) (style : Json.Style) :
    (ofEntities document.entities).toJson.depth ≤ 134
    ∧ read (write style (ofEntities document.entities))
      = (if (ofEntities document.entities).toJson.depth < 128 then .ok (ofEntities document.entities)
        else .error .malformed)
    ∧ (Entity.nestingOfAll document.entities ≤ 60 →
      read (write style (ofEntities document.entities)) = .ok (ofEntities document.entities)) := by
  obtain ⟨-, -, within⟩ := Document.content_of_read accepted
  have levels := depth_ofEntities document.entities
  have default : Options.defaultNestingDepth = 64 := rfl
  refine ⟨by omega, ?_, ?_⟩
  · rw [read_write, fitting, levelLimit]
    simp only [Nat.lt_succ_iff]
  · intro shallow
    rw [read_write, fitting_eq_ok_iff, levelLimit]
    omega

/-- The characters of a data type whose bodies stand inside one another. -/
def nestedBodies (inner : Nat) : List Char :=
  'A' :: ((List.replicate inner ['{', 'a', ':']).flatten ++ '{' :: '}' :: List.replicate inner '}')

theorem read_write_ofEntities_nestedBodies :
    ∃ document, Document.readWith (fun _ => none) .permissive (String.ofList (nestedBodies 59)) = .ok document
      ∧ ∀ style, read (write style (ofEntities document.entities))
        = .ok (ofEntities document.entities) := by
  have cleanly : Document.readsCleanly (fun _ => none) .permissive
      (fun entities => decide (Entity.nestingOfAll entities ≤ 60)) (nestedBodies 59) = true := by
    decide +kernel
  obtain ⟨document, accepted, shallow⟩ := Document.exists_of_readsCleanly _ cleanly
  refine ⟨document, accepted, ?_⟩
  intro style
  exact (read_write_ofEntities_of_read accepted rfl style).2.2 (of_decide_eq_true shallow)

/-- With 63 bodies a text is within the default nesting limit, and its schema is not read back. -/
theorem not_read_write_ofEntities_nestedBodies :
    ∃ document, Document.readWith (fun _ => none) .permissive (String.ofList (nestedBodies 62)) = .ok document
      ∧ Options.permissive.maxNestingDepth = Options.defaultNestingDepth
      ∧ ∀ style, read (write style (ofEntities document.entities))
        ≠ .ok (ofEntities document.entities) := by
  have cleanly : Document.readsCleanly (fun _ => none) .permissive
      (fun entities => decide ((ofEntities entities).toJson.depth = 128)) (nestedBodies 62) = true := by
    decide +kernel
  obtain ⟨document, accepted, deep⟩ := Document.exists_of_readsCleanly _ cleanly
  refine ⟨document, accepted, rfl, ?_⟩
  intro style same
  rw [read_write, fitting_eq_ok_iff, of_decide_eq_true deep] at same
  exact absurd same (by decide)

end Schema

end ApiDef
