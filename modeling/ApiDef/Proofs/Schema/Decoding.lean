import ApiDef.Schema.Decode
import ApiDef.Proofs.Json.Fitting
import ApiDef.Proofs.Reader.TagText
import ApiDef.Proofs.Schema.BagEntries
set_option autoImplicit false

/-!
# Reading written schemas

A schema that is written as JSON is read back as it was, with its bags in their order, exactly when
its JSON form is not nested too deeply. For each kind of value in a schema, decoding its JSON form is
traced field by field: a field that is left out has the value that reading fills in.
-/

namespace ApiDef

open Json Json.Draft

theorem OptionTable.entries_foldl_insert (table : OptionTable) {pairs : List (String × String)}
    (ascending : (table.entries ++ pairs).Pairwise fun left right => left.1 < right.1) :
    (pairs.foldl (fun table pair => table.insert pair.1 pair.2) table).entries
      = table.entries ++ pairs := by
  induction pairs generalizing table with
  | nil => rw [List.foldl_nil, List.append_nil]
  | cons pair others ih =>
    have before : ∀ entry ∈ table.entries, entry.1 < pair.1 := by
      intro entry member
      exact (List.pairwise_append.mp ascending).2.2 entry member pair List.mem_cons_self
    have inserted : (table.insert pair.1 pair.2).entries = table.entries ++ [pair] :=
      insertEntry_last before
    rw [List.foldl_cons, ih, inserted, List.append_assoc, List.singleton_append]
    rwa [inserted, List.append_assoc, List.singleton_append]

theorem OptionTable.ofList_entries (table : OptionTable) : ofList table.entries = table := by
  apply OptionTable.ext
  exact entries_foldl_insert ∅ table.ascending

namespace Schema

/-!
## Fields
-/

section

variable {α β : Type} (take : α → String → Draft → Decoded α) {levels : Nat} (key : String)

/-- A field that is always written. -/
theorem collects_field (place : Option β → α) {json : Json} {value : β} {decode : Draft → Decoded β}
    (decoded : decode (ofJson json) = fitting json.depth levels value)
    (taken : ∀ draft, take (place none) key draft
      = do return place (← once key none (decode draft))) :
    Collects take levels (place none) [(key, json)] (place (some value)) := by
  apply Collects.single
  rw [taken, decoded]
  exact (congrArg (· >>= _) (map_fitting some)).trans (map_fitting fun found => place found)

/-- A field that is left out when there is no value. -/
theorem collects_optionalField (place : Option (Option β) → α) {encode : β → Json}
    {decode : Draft → Decoded β} (held : Option β) (present : ∀ value, encode value ≠ .null)
    (decoded : ∀ value, decode (ofJson (encode value)) = fitting (encode value).depth levels value)
    (taken : ∀ draft, take (place none) key draft
      = do return place (← once key none (asOptional decode draft))) :
    ∃ found, Collects take levels (place none) (optionalField key encode held) (place found)
      ∧ found.getD none = held := by
  cases held with
  | none => exact ⟨none, Collects.nil, rfl⟩
  | some value =>
    refine ⟨some (some value), ?_, rfl⟩
    refine collects_field take key place ?_ taken
    rw [asOptional_ofJson (present value), decoded]
    exact map_fitting some

theorem collects_textField (levels : Nat) (place : Option (Option String) → α) (held : Option String)
    (taken : ∀ draft, take (place none) key draft
      = do return place (← once key none (asOptional asText draft))) :
    ∃ found, Collects take levels (place none) (optionalField key .string held) (place found)
      ∧ found.getD none = held := by
  refine collects_optionalField take key place held ?_ (fun _ => rfl) taken
  intro value same
  cases same

/-- A field that is left out when there are no values. -/
theorem collects_listField (place : Option (List β) → α) {encode : β → Json}
    {decode : Nat → Draft → Decoded β} (values : List β)
    (decoded : ∀ value, Decodes decode (encode value) value)
    (taken : ∀ draft, take (place none) key draft
      = do return place (← once key none (asList decode levels draft))) :
    ∃ found, Collects take levels (place none) (listField key encode values) (place found)
      ∧ found.getD [] = values := by
  cases values with
  | nil => exact ⟨none, Collects.nil, rfl⟩
  | cons first others =>
    refine ⟨some (first :: others), ?_, rfl⟩
    exact collects_field take key place (Decodes.list (fun value _ => decoded value) levels) taken

end

theorem decodes_text (text : String) : Decodes decodeText (.string text) text := by
  intro levels
  rfl

/-!
## Shapes
-/

theorem kept_shape (shape : Shape) : Kept shape.toJson := by
  induction shape with
  | primitive name => exact Kept.string name
  | reference target =>
    apply Kept.object
    exact List.forall_mem_singleton.mpr (Kept.string target)
  | list element ih =>
    apply Kept.object
    exact List.forall_mem_cons.mpr ⟨Kept.string "array", List.forall_mem_singleton.mpr ih⟩

theorem ofDraft?_toJson (shape : Shape) {levels : Nat} (enough : shape.toJson.depth ≤ levels) :
    Shape.ofDraft? levels (ofJson shape.toJson) = some shape := by
  induction shape generalizing levels with
  | primitive name => cases levels <;> rfl
  | reference target =>
    cases levels with
    | zero => cases enough
    | succ levels => rfl
  | list element ih =>
    cases levels with
    | zero => cases enough
    | succ levels =>
      have inner : element.toJson.depth ≤ levels := by
        simpa [Shape.toJson, depth, depthOfMembers] using enough
      have elementFound := ih inner
      exact congrArg (Option.map Shape.list) elementFound

theorem decodes_shape (shape : Shape) : Decodes Shape.decode shape.toJson shape := by
  intro levels
  rw [Shape.decode, kept_shape shape levels, fitting]
  by_cases enough : shape.toJson.depth ≤ levels
  · rw [ofDraft?_toJson shape enough]
    simp only [enough, decide_true, if_true]
  · simp only [enough, decide_false, if_false]
    rfl

/-!
## Tags
-/

theorem decodes_options (options : OptionTable) (levels : Nat) :
    (OptionTable.ofList <$> asMembers decodeText levels
        (ofJson (.object (options.entries.map fun (key, value) => (key, .string value)))))
      = fitting (depth (.object (options.entries.map fun (key, value) => (key, .string value)))) levels
          options := by
  have members : Decodes (asMembers decodeText)
      (.object (options.entries.map fun (key, value) => (key, .string value))) options.entries :=
    Decodes.members fun entry _ => decodes_text entry.2
  rw [members levels, map_fitting, OptionTable.ofList_entries]

theorem collects_optionsField (levels : Nat) (place : Option OptionTable → TagParts)
    (options : OptionTable)
    (taken : ∀ draft, TagParts.take levels (place none) "options" draft
      = do return place (← once "options" none (OptionTable.ofList <$> asMembers decodeText levels draft))) :
    ∃ found, Collects (TagParts.take levels) levels (place none) (optionsField options) (place found)
      ∧ found.getD ∅ = options := by
  unfold optionsField
  split
  next empty =>
    refine ⟨none, Collects.nil, ?_⟩
    apply OptionTable.ext
    exact (List.isEmpty_iff.mp empty).symm
  next =>
    refine ⟨some options, ?_, rfl⟩
    exact collects_field _ "options" place (decodes_options options levels) taken

theorem decodes_tag (tag : Tag) : Decodes decodeTag (tagJson tag) tag := by
  apply Decodes.record
  intro levels
  have name := collects_field (TagParts.take levels) "type" (⟨·, none, none⟩)
    (decodes_text tag.name levels) (fun _ => rfl)
  obtain ⟨arguments, takenArguments, sameArguments⟩ :=
    collects_listField (TagParts.take levels) "arguments" (⟨some tag.name, ·, none⟩) tag.arguments
      decodes_text (fun _ => rfl)
  obtain ⟨options, takenOptions, sameOptions⟩ :=
    collects_optionsField levels (⟨some tag.name, arguments, ·⟩) tag.options (fun _ => rfl)
  refine ⟨_, name.append (takenArguments.append takenOptions), ?_⟩
  intro given
  simp only [TagParts.finish, Given.require, sameArguments, sameOptions]
  rfl

/-!
## Members
-/

theorem rowJson_eq_map {keys : List String} (row : Row Member keys) :
    rowJson row = row.entries.map fun (key, member) => (key, memberJson member) := by
  induction row with
  | nil => rfl
  | cons member others ih =>
    rw [rowJson, ih]
    rfl

theorem collects_partsFields (decodeBag : Draft → Decoded (Bag Member)) (levels : Nat)
    (parts : MemberParts) :
    ∃ shape description defaultValue tags,
      Collects (MemberDraft.take decodeBag levels) levels ⟨none, none, none, none, none⟩
          (partsFields parts) ⟨shape, description, defaultValue, tags, none⟩
        ∧ ∀ given members,
          MemberDraft.finish given ⟨shape, description, defaultValue, tags, members⟩
            = .ok (.ofParts parts (members.getD none)) := by
  have shape := collects_field (MemberDraft.take decodeBag levels) "type"
    (⟨·, none, none, none, none⟩) (decodes_shape parts.shape levels) (fun _ => rfl)
  obtain ⟨description, takenDescription, sameDescription⟩ :=
    collects_textField (MemberDraft.take decodeBag levels) "description" levels
      (⟨some parts.shape, ·, none, none, none⟩) parts.description (fun _ => rfl)
  obtain ⟨defaultValue, takenDefault, sameDefault⟩ :=
    collects_textField (MemberDraft.take decodeBag levels) "defaultValue" levels
      (⟨some parts.shape, description, ·, none, none⟩) parts.defaultValue (fun _ => rfl)
  obtain ⟨tags, takenTags, sameTags⟩ :=
    collects_listField (MemberDraft.take decodeBag levels) "annotations"
      (⟨some parts.shape, description, defaultValue, ·, none⟩) parts.tags decodes_tag (fun _ => rfl)
  refine ⟨_, _, _, _, shape.append (takenDescription.append (takenDefault.append takenTags)), ?_⟩
  intro given members
  simp only [MemberDraft.finish, Given.require, sameDescription, sameDefault, sameTags]
  rfl

theorem decodes_plain (parts : MemberParts) :
    Decodes decodeMember (memberJson (.plain parts)) (.plain parts) := by
  refine .of_opened rfl rfl fun levels => ?_
  obtain ⟨_, _, _, _, collected, finished⟩ :=
    collects_partsFields (decodeMembers levels) levels parts
  exact recordOf_ofJson collected fun given => finished given none

theorem decodes_inline (parts : MemberParts) {members : Bag Member}
    (decodes : Decodes decodeMembers (.object (rowJson members.row)) members) :
    Decodes decodeMember (memberJson (.inline parts members)) (.inline parts members) := by
  refine .of_opened rfl rfl fun levels => ?_
  obtain ⟨shape, description, defaultValue, tags, collected, finished⟩ :=
    collects_partsFields (decodeMembers levels) levels parts
  -- The members are an optional field, and no object is read as an absent value.
  have present : Json.object (rowJson members.row) ≠ .null := by
    intro same
    cases same
  have decoded : asOptional (decodeMembers levels) (ofJson (.object (rowJson members.row)))
      = fitting (depth (.object (rowJson members.row))) levels (some members) := by
    rw [asOptional_ofJson present, decodes levels]
    exact map_fitting some
  have inner := collects_field (MemberDraft.take (decodeMembers levels) levels) "properties"
    (⟨shape, description, defaultValue, tags, ·⟩) decoded (fun _ => rfl)
  exact recordOf_ofJson (collected.append inner) fun given => finished given _

theorem decodes_members_of {members : Bag Member}
    (decodes : ∀ entry ∈ members.entries, Decodes decodeMember (memberJson entry.2) entry.2) :
    Decodes decodeMembers (.object (rowJson members.row)) members := by
  refine .of_opened rfl rfl fun levels => ?_
  have entries := membersOf_ofJson fun entry member => decodes entry member levels
  rw [rowJson_eq_map]
  refine (congrArg (Bag.ofList <$> ·) entries).trans ?_
  rw [map_fitting, Bag.ofList_entries]
  rfl

mutual

theorem decodes_member : (member : Member) → Decodes decodeMember (memberJson member) member
  | .plain parts => decodes_plain parts
  | .inline parts ⟨_, _, row⟩ => decodes_inline parts (decodes_members_of (decodes_row row))

theorem decodes_row : {keys : List String} → (row : Row Member keys) →
    ∀ entry ∈ row.entries, Decodes decodeMember (memberJson entry.2) entry.2
  | _, .nil => List.forall_mem_nil _
  | _, .cons member others =>
    List.forall_mem_cons.mpr ⟨decodes_member member, decodes_row others⟩

end

theorem decodes_members (members : Bag Member) :
    Decodes decodeMembers (.object (rowJson members.row)) members :=
  decodes_members_of fun entry _ => decodes_member entry.2

/-!
## Keeping fields whole
-/

theorem forall_optionalField {α : Type} {good : String × Json → Prop} {key : String}
    {encode : α → Json} {held : Option α} (each : ∀ value, good (key, encode value)) :
    ∀ field ∈ optionalField key encode held, good field := by
  cases held with
  | none => exact List.forall_mem_nil _
  | some value => exact List.forall_mem_singleton.mpr (each value)

theorem forall_listField {α : Type} {good : String × Json → Prop} {key : String}
    {encode : α → Json} {values : List α} (each : good (key, .array (values.map encode))) :
    ∀ field ∈ listField key encode values, good field := by
  cases values with
  | nil => exact List.forall_mem_nil _
  | cons first others => exact List.forall_mem_singleton.mpr each

theorem kept_list {α : Type} {encode : α → Json} (each : ∀ value, Kept (encode value))
    (values : List α) : Kept (.array (values.map encode)) := by
  apply Kept.array
  intro element member
  obtain ⟨value, -, rfl⟩ := List.mem_map.mp member
  exact each value

theorem kept_tag (tag : Tag) : Kept (tagJson tag) := by
  have options : ∀ field ∈ optionsField tag.options, Kept field.2 := by
    unfold optionsField
    split
    next => exact List.forall_mem_nil _
    next =>
      rw [List.forall_mem_singleton]
      apply Kept.object
      intro member inside
      obtain ⟨entry, -, rfl⟩ := List.mem_map.mp inside
      exact Kept.string entry.2
  apply Kept.object
  rw [List.forall_mem_cons, List.forall_mem_append]
  exact ⟨Kept.string tag.name, forall_listField (kept_list Kept.string _), options⟩

theorem kept_partsFields (parts : MemberParts) : ∀ field ∈ partsFields parts, Kept field.2 := by
  rw [partsFields, List.forall_mem_cons, List.forall_mem_append, List.forall_mem_append]
  refine ⟨kept_shape parts.shape, forall_optionalField Kept.string,
    forall_optionalField Kept.string, ?_⟩
  exact forall_listField (kept_list kept_tag _)

mutual

theorem kept_member : (member : Member) → Kept (memberJson member)
  | .plain parts => Kept.object (kept_partsFields parts)
  | .inline parts ⟨_, _, row⟩ => by
    apply Kept.object
    rw [List.forall_mem_append, List.forall_mem_singleton]
    exact ⟨kept_partsFields parts, Kept.object (kept_row row)⟩

theorem kept_row : {keys : List String} → (row : Row Member keys) → ∀ field ∈ rowJson row, Kept field.2
  | _, .nil => List.forall_mem_nil _
  | _, .cons member others => List.forall_mem_cons.mpr ⟨kept_member member, kept_row others⟩

end

/-!
## Types
-/

/-- A field of a type next to its kind. -/
def IsBodyField (field : String × Json) : Prop :=
  field.1 ≠ "type" ∧ Kept field.2

theorem isBodyField {key : String} {json : Json} (different : key ≠ "type") (kept : Kept json) :
    IsBodyField (key, json) :=
  ⟨different, kept⟩

theorem foldlM_takeKind {fields : List (String × Json)} (body : ∀ field ∈ fields, IsBodyField field)
    (levels : Nat) (found : Option TypeKind) :
    (ofMembers fields).foldlM (takeKind levels) found
      = fitting (depthOfMembers fields) levels found := by
  induction fields with
  | nil => rfl
  | cons field others ih =>
    obtain ⟨⟨different, kept⟩, rest⟩ := List.forall_mem_cons.mp body
    have passed : takeKind levels found (some field.1, ofJson field.2)
        = fitting field.2.depth levels found := by
      unfold takeKind
      simp only [keyText, kept levels, decide_eq_true_eq]
      exact if_neg different
    rw [ofMembers, List.foldlM_cons, passed, depthOfMembers]
    exact fitting_bind (ih rest)

theorem filter_ofMembers {fields : List (String × Json)} (body : ∀ field ∈ fields, IsBodyField field) :
    ((ofMembers fields).filter fun member => member.1 ≠ some "type") = ofMembers fields := by
  induction fields with
  | nil => rfl
  | cons field others ih =>
    obtain ⟨⟨different, -⟩, rest⟩ := List.forall_mem_cons.mp body
    rw [ofMembers, List.filter_cons_of_pos (by simpa using different), ih rest]

/-- A type is decoded like the body of its kind. -/
theorem decodes_type_of_body {word : String} (kind : TypeKind) {fields : List (String × Json)}
    {entry : TypeEntry} (known : decodeKind (.string (some word)) = .ok kind)
    (body : ∀ field ∈ fields, IsBodyField field)
    (decoded : ∀ levels, decodeBody levels kind (ofJson (.object fields))
      = fitting (depthOfMembers fields) levels entry) :
    Decodes decodeType (.object (("type", .string word) :: fields)) entry := by
  refine .of_opened rfl rfl fun levels => ?_
  -- The kind is looked for first, and its body is then decoded from all the other fields, so each
  -- field is fitted into the levels twice.
  have kindFound : takeKind levels none (some "type", .string (some word)) = .ok (some kind) := by
    unfold takeKind
    simp only [keyText, once, known]
    rfl
  have folded : (ofMembers (("type", .string word) :: fields)).foldlM (takeKind levels) none
      = fitting (depthOfMembers fields) levels (some kind) := by
    rw [ofMembers, ofJson, List.foldlM_cons, kindFound, ← foldlM_takeKind body]
    rfl
  have others : ((ofMembers (("type", .string word) :: fields)).filter
      fun member => member.1 ≠ some "type") = ofMembers fields := by
    rw [ofMembers, List.filter_cons_of_neg (by simp), filter_ofMembers body]
  have total : depthOfMembers (("type", .string word) :: fields) = depthOfMembers fields :=
    Nat.zero_max _
  rw [total, ofJson, decodeType, folded, others]
  exact fitting_bind_ok fun enough => (decoded levels).trans (if_pos enough)

theorem isBodyField_head {name : String} {description : Option String} {tags : List Tag} :
    ∀ field ∈ ("name", .string name) :: (descriptionField description ++ tagsField tags),
      IsBodyField field := by
  rw [List.forall_mem_cons, List.forall_mem_append]
  refine ⟨isBodyField (by decide) (Kept.string name), ?_, ?_⟩
  · exact forall_optionalField fun text => isBodyField (by decide) (Kept.string text)
  · exact forall_listField (isBodyField (by decide) (kept_list kept_tag tags))

theorem decodes_record (declared : Record) :
    Decodes decodeType (TypeEntry.toJson (.record declared)) (.record declared) := by
  have body : ∀ field ∈ ("name", .string declared.name) :: (descriptionField declared.description
      ++ tagsField declared.tags) ++ [("properties", .object (rowJson declared.members.row))],
      IsBodyField field := by
    rw [List.forall_mem_append, List.forall_mem_singleton]
    exact ⟨isBodyField_head, isBodyField (by decide) (Kept.object (kept_row declared.members.row))⟩
  refine decodes_type_of_body .record rfl body ?_
  intro levels
  have name := collects_field (RecordDraft.take levels) "name" (⟨·, none, none, none⟩)
    (decodes_text declared.name levels) (fun _ => rfl)
  obtain ⟨description, takenDescription, sameDescription⟩ :=
    collects_textField (RecordDraft.take levels) "description" levels
      (⟨some declared.name, ·, none, none⟩) declared.description (fun _ => rfl)
  obtain ⟨tags, takenTags, sameTags⟩ :=
    collects_listField (RecordDraft.take levels) "annotations"
      (⟨some declared.name, description, ·, none⟩) declared.tags decodes_tag (fun _ => rfl)
  have members := collects_field (RecordDraft.take levels) "properties"
    (⟨some declared.name, description, tags, ·⟩) (decodes_members declared.members levels)
    (fun _ => rfl)
  refine recordOf_ofJson ((name.append (takenDescription.append takenTags)).append members) ?_
  intro given
  simp only [RecordDraft.finish, Given.require, sameDescription, sameTags]
  rfl

theorem decodes_enumeration (declared : Enumeration) :
    Decodes decodeType (TypeEntry.toJson (.enumeration declared)) (.enumeration declared) := by
  have body : ∀ field ∈ ("name", .string declared.name) :: (descriptionField declared.description
      ++ tagsField declared.tags) ++ [("values", textsJson declared.values)], IsBodyField field := by
    rw [List.forall_mem_append, List.forall_mem_singleton]
    exact ⟨isBodyField_head, isBodyField (by decide) (kept_list Kept.string declared.values)⟩
  refine decodes_type_of_body .enumeration rfl body ?_
  intro levels
  have name := collects_field (EnumerationDraft.take levels) "name" (⟨·, none, none, none⟩)
    (decodes_text declared.name levels) (fun _ => rfl)
  obtain ⟨description, takenDescription, sameDescription⟩ :=
    collects_textField (EnumerationDraft.take levels) "description" levels
      (⟨some declared.name, ·, none, none⟩) declared.description (fun _ => rfl)
  obtain ⟨tags, takenTags, sameTags⟩ :=
    collects_listField (EnumerationDraft.take levels) "annotations"
      (⟨some declared.name, description, ·, none⟩) declared.tags decodes_tag (fun _ => rfl)
  have texts : Decodes (asList decodeText) (textsJson declared.values) declared.values :=
    Decodes.list fun text _ => decodes_text text
  have values := collects_field (EnumerationDraft.take levels) "values"
    (⟨some declared.name, description, tags, ·⟩) (texts levels) (fun _ => rfl)
  refine recordOf_ofJson ((name.append (takenDescription.append takenTags)).append values) ?_
  intro given
  simp only [EnumerationDraft.finish, Given.require, sameDescription, sameTags]
  rfl

theorem decodes_type (entry : TypeEntry) : Decodes decodeType entry.toJson entry := by
  cases entry with
  | record declared => exact decodes_record declared
  | enumeration declared => exact decodes_enumeration declared

/-!
## Operations
-/

theorem decodes_transport (transport : Transport) :
    Decodes (asChoice transportWords) (.string (transportWord transport)) transport := by
  intro levels
  cases transport <;> rfl

theorem decodes_verb (verb : Verb) : Decodes (asChoice verbWords) (.string verb.label) verb := by
  intro levels
  cases verb <;> rfl

theorem decodes_argument (argument : Argument) :
    Decodes decodeArgument argument.toJson argument := by
  apply Decodes.record
  intro levels
  have shape := collects_field (ArgumentDraft.take levels) "type" (⟨·, none, none, none, none⟩)
    (decodes_shape argument.shape levels) (fun _ => rfl)
  have transport := collects_field (ArgumentDraft.take levels) "transport"
    (⟨some argument.shape, ·, none, none, none⟩) (decodes_transport argument.transport levels)
    (fun _ => rfl)
  obtain ⟨identifier, takenIdentifier, sameIdentifier⟩ :=
    collects_textField (ArgumentDraft.take levels) "id" levels
      (⟨some argument.shape, some argument.transport, ·, none, none⟩) argument.identifier
      (fun _ => rfl)
  have flag : asBool (ofJson (.bool argument.isOptional))
      = fitting (depth (.bool argument.isOptional)) levels argument.isOptional := rfl
  have isOptional := collects_field (ArgumentDraft.take levels) "optional"
    (⟨some argument.shape, some argument.transport, identifier, ·, none⟩) flag (fun _ => rfl)
  obtain ⟨tags, takenTags, sameTags⟩ :=
    collects_listField (ArgumentDraft.take levels) "annotations"
      (⟨some argument.shape, some argument.transport, identifier, some argument.isOptional, ·⟩)
      argument.tags decodes_tag (fun _ => rfl)
  refine ⟨_, (((shape.append transport).append takenIdentifier).append isOptional).append takenTags,
    ?_⟩
  intro given
  simp only [ArgumentDraft.finish, Given.require, sameIdentifier, sameTags]
  rfl

theorem decodes_arguments (arguments : Bag Argument) (levels : Nat) :
    (Bag.ofList <$> asMembers decodeArgument levels (ofJson (arguments.toJson Argument.toJson)))
      = fitting (arguments.toJson Argument.toJson).depth levels arguments := by
  have members : Decodes (asMembers decodeArgument) (arguments.toJson Argument.toJson)
      arguments.entries :=
    Decodes.members fun entry _ => decodes_argument entry.2
  rw [members levels, map_fitting, Bag.ofList_entries]

theorem decodes_operation (operation : Operation) :
    Decodes decodeOperation operation.toJson operation := by
  apply Decodes.record
  intro levels
  have name := collects_field (OperationDraft.take levels) "name"
    (⟨·, none, none, none, none, none, none⟩) (decodes_text operation.name levels) (fun _ => rfl)
  obtain ⟨description, takenDescription, sameDescription⟩ :=
    collects_textField (OperationDraft.take levels) "description" levels
      (⟨some operation.name, ·, none, none, none, none, none⟩) operation.description (fun _ => rfl)
  have verbWritten : ∀ verb : Verb, Json.string verb.label ≠ .null := by
    intro verb same
    cases same
  obtain ⟨verb, takenVerb, sameVerb⟩ :=
    collects_optionalField (OperationDraft.take levels) "method"
      (⟨some operation.name, description, ·, none, none, none, none⟩) operation.verb verbWritten
      (fun verb => decodes_verb verb levels) (fun _ => rfl)
  obtain ⟨path, takenPath, samePath⟩ :=
    collects_textField (OperationDraft.take levels) "path" levels
      (⟨some operation.name, description, verb, ·, none, none, none⟩) operation.path (fun _ => rfl)
  have arguments := collects_field (OperationDraft.take levels) "arguments"
    (⟨some operation.name, description, verb, path, ·, none, none⟩)
    (decodes_arguments operation.arguments levels) (fun _ => rfl)
  have response := collects_field (OperationDraft.take levels) "responseType"
    (⟨some operation.name, description, verb, path, some operation.arguments, ·, none⟩)
    (decodes_shape operation.response levels) (fun _ => rfl)
  obtain ⟨tags, takenTags, sameTags⟩ :=
    collects_listField (OperationDraft.take levels) "annotations"
      (⟨some operation.name, description, verb, path, some operation.arguments,
        some operation.response, ·⟩) operation.tags decodes_tag (fun _ => rfl)
  refine ⟨_, ((((name.append takenDescription).append takenVerb).append takenPath).append
    (arguments.append response)).append takenTags, ?_⟩
  intro given
  simp only [OperationDraft.finish, Given.require, sameDescription, sameVerb, samePath, sameTags]
  rfl

/-!
## Schemas
-/

theorem decodes_schema (schema : Schema) : Decodes decode schema.toJson schema := by
  apply Decodes.record
  intro levels
  have typesDecoded : Decodes (asList decodeType) (.array (schema.types.map TypeEntry.toJson))
      schema.types :=
    Decodes.list fun entry _ => decodes_type entry
  have operationsDecoded : Decodes (asList decodeOperation)
      (.array (schema.operations.map Operation.toJson)) schema.operations :=
    Decodes.list fun operation _ => decodes_operation operation
  have types := collects_field (SchemaDraft.take levels) "types" (⟨·, none⟩) (typesDecoded levels)
    (fun _ => rfl)
  have operations := collects_field (SchemaDraft.take levels) "methods" (⟨some schema.types, ·⟩)
    (operationsDecoded levels) (fun _ => rfl)
  exact ⟨_, types.append operations, fun _ => rfl⟩

theorem read_write (style : Json.Style) (schema : Schema) :
    read (write style schema) = fitting schema.toJson.depth levelLimit schema := by
  rw [read, Json.read, write, ofText_text]
  refine (congrArg (· >>= _) (decodes_schema schema levelLimit)).trans ?_
  exact bind_pure (m := Decoded) _

/-- A written schema is read back as it was exactly when its JSON form is nested fewer than 128 levels
deep. -/
theorem read_write_eq_ok_iff (style : Json.Style) (schema : Schema) :
    read (write style schema) = .ok schema ↔ schema.toJson.depth < 128 := by
  rw [read_write, fitting_eq_ok_iff, levelLimit, Nat.lt_succ_iff]

end Schema

end ApiDef
