import ApiDef.Document
set_option autoImplicit false

/-!
# The walk over entities

What is wrong with a list of entities, said by a walk over them in order. The walk carries the table
of known types and sees no text. Questions without their places have the same answers, so a reading
that asks what the walk visits finds what the walk finds.
-/

namespace ApiDef

open Text

namespace TypeRef

mutual

/-- A type and the types inside it, each before its own arguments. -/
def nodes : TypeRef → List TypeRef
  | mk name isList generics => mk name isList generics :: nodesOfAll generics

def nodesOfAll : List TypeRef → List TypeRef
  | [] => []
  | type :: others => nodes type ++ nodesOfAll others

end

end TypeRef

namespace Property

mutual

/-- A property and the properties inside it, each before its own body. -/
def preorder : Property → List Property
  | plain field => [plain field]
  | inline field properties => inline field properties :: preorderOfAll properties

def preorderOfAll : List Property → List Property
  | [] => []
  | property :: others => preorder property ++ preorderOfAll others

end

end Property

namespace Walk

section

variable (options : Options)

def tagIssues (site : Site) (tags : List Tag) : List Issue :=
  tags.filterMap (Question.tagIssue? options site)

/-- At most one issue for each node of a type. -/
def typeIssues (table : TypeTable) (type : TypeRef) : List Issue :=
  type.nodes.filterMap fun node =>
    (table.nameIssue? node.name node.generics.length).map Issue.type

def propertyIssues (table : TypeTable) (property : Property) : List Issue :=
  tagIssues options .field property.field.tags
    ++ if property.isInline then [] else typeIssues table property.field.type

def parameterIssues (table : TypeTable) (parameter : Parameter) : List Issue :=
  tagIssues options .parameter parameter.tags ++ typeIssues table parameter.type

variable (patternFault? : String → Option String)

def routeIssues (method : Method) : List Issue :=
  if options.rest && method.verb?.isSome then
    ((method.routeIssue? patternFault?).map Issue.route).toList
  else []

/-- The issues of an entity among known types. A data type is known in its own body. -/
def entityIssues (table : TypeTable) : Entity → List Issue
  | .comment _ => []
  | .enumeration declared => tagIssues options .type declared.tags
  | .dataType declared =>
    tagIssues options .type declared.tags
      ++ (Property.preorderOfAll declared.properties).flatMap
        (propertyIssues options (table.declare declared.name))
  | .method declared =>
    tagIssues options .method declared.tags
      ++ declared.parameters.flatMap (parameterIssues options table)
      ++ typeIssues table declared.returnType ++ routeIssues options patternFault? declared

/-- The types that are known after an entity. -/
def tableAfter (table : TypeTable) : Entity → TypeTable
  | .comment _ | .method _ => table
  | .enumeration declared => table.declare declared.name
  | .dataType declared => table.declare declared.name

def issuesAmong : TypeTable → List Entity → List Issue
  | _, [] => []
  | table, entity :: others =>
    entityIssues options patternFault? table entity
      ++ issuesAmong (tableAfter table entity) others

/-- The issues of all entities, starting from the built-in types and those of the options. -/
def issues (entities : List Entity) : List Issue :=
  issuesAmong options patternFault? (.ofSignatures options.validTypes) entities

end

end Walk

/-!
## The rules

When each check finds something, and what. The rules about routes are those of `Method.routeIssue?`.
-/

theorem Issue.severity_eq_warning_iff {issue : Issue} :
    issue.severity = .warning ↔ ∃ name, issue = .type (.unknown name) := by
  cases issue with
  | type found => cases found <;> simp [severity]
  | tagForbidden | tagUnknown | route => simp [severity]

namespace TypeTable

variable {table : TypeTable} {name : String} {count : Nat}

/-- Nothing is wrong with a known name that has as many arguments as it takes. -/
theorem nameIssue?_eq_none_iff :
    table.nameIssue? name count = none ↔ table.arity? name = some count := by
  unfold nameIssue?
  cases table.arity? name with
  | none => simp
  | some arity => grind

/-- There is one issue at most: the name is not known, or it takes no arguments and has some, or it has
another number of them than it takes. -/
theorem nameIssue?_eq_some_iff {issue : TypeIssue} :
    table.nameIssue? name count = some issue
      ↔ table.arity? name = none ∧ issue = .unknown name
        ∨ table.arity? name = some 0 ∧ count ≠ 0 ∧ issue = .genericsForbidden name
        ∨ ∃ arity, table.arity? name = some arity ∧ arity ≠ 0 ∧ arity ≠ count
          ∧ issue = .genericsMiscounted name := by
  unfold nameIssue?
  cases table.arity? name with
  | none => simp [eq_comm]
  | some arity => grind

end TypeTable

namespace Question

variable {options : Options} {site : Site} {tag : Tag}

/-- Nothing is wrong with a tag that is one of those allowed. -/
theorem tagIssue?_eq_none_iff :
    tagIssue? options site tag = none ↔ ∃ name ∈ options.allowedTags site, tag.isNamed name = true := by
  rw [← List.any_eq_true, tagIssue?]
  cases options.allowedTags site with
  | nil => simp
  | cons first others => cases (first :: others).any tag.isNamed <;> simp

/-- What is wrong with a tag depends on whether any tag is allowed. -/
theorem tagIssue?_eq_some_iff {issue : Issue} :
    tagIssue? options site tag = some issue
      ↔ options.allowedTags site = [] ∧ issue = .tagForbidden site
        ∨ options.allowedTags site ≠ [] ∧ (∀ name ∈ options.allowedTags site, tag.isNamed name = false)
          ∧ issue = .tagUnknown site (options.allowedTags site) := by
  have unnamed : (options.allowedTags site).any tag.isNamed = false
      ↔ ∀ name ∈ options.allowedTags site, tag.isNamed name = false := by
    simp only [List.any_eq_false, Bool.not_eq_true]
  rw [tagIssue?, ← unnamed, ← List.isEmpty_iff]
  grind

end Question

/-- Nothing is wrong with a type if every name in it is known and has as many arguments as it takes. -/
theorem Walk.typeIssues_eq_nil_iff {table : TypeTable} {type : TypeRef} :
    typeIssues table type = []
      ↔ ∀ node ∈ type.nodes, table.arity? node.name = some node.generics.length := by
  simp only [typeIssues, List.filterMap_eq_nil_iff, Option.map_eq_none_iff,
    TypeTable.nameIssue?_eq_none_iff]

/-- A type comes with a warning if and only if a name in it is not known. -/
theorem Walk.exists_warning_iff {table : TypeTable} {type : TypeRef} :
    (∃ issue ∈ typeIssues table type, issue.severity = .warning)
      ↔ ∃ node ∈ type.nodes, table.arity? node.name = none := by
  constructor
  · rintro ⟨issue, found, warns⟩
    obtain ⟨name, rfl⟩ := Issue.severity_eq_warning_iff.mp warns
    obtain ⟨node, member, same⟩ := List.mem_filterMap.mp found
    refine ⟨node, member, ?_⟩
    obtain ⟨wrong, here, told⟩ := Option.map_eq_some_iff.mp same
    obtain rfl := Issue.type.inj told
    rcases TypeTable.nameIssue?_eq_some_iff.mp here with ⟨unknown, -⟩ | ⟨-, -, same⟩ | ⟨_, -, -, -, same⟩
    · exact unknown
    · cases same
    · cases same
  · rintro ⟨node, member, unknown⟩
    have here : table.nameIssue? node.name node.generics.length = some (.unknown node.name) :=
      TypeTable.nameIssue?_eq_some_iff.mpr (.inl ⟨unknown, rfl⟩)
    refine ⟨.type (.unknown node.name), List.mem_filterMap.mpr ⟨node, member, ?_⟩, rfl⟩
    rw [here, Option.map_some]

/-- What a question is about, without its place. -/
inductive Question.Subject where
  | tags (site : Site) (tags : List Tag)
  | declare (name : String)
  | type (type : TypeRef)
  | route (method : Method)

namespace Question

def subject : Question → Subject
  | tags site found => .tags site (found.map (·.1))
  | declare name => .declare name
  | type declared _ => .type declared
  | route method _ => .route method

namespace Subject

def issues (patternFault? : String → Option String) (options : Options) (table : TypeTable) :
    Subject → List Issue
  | .tags site found => Walk.tagIssues options site found
  | .declare _ => []
  | .type declared => (table.issues declared).map Issue.type
  | .route method =>
    if options.rest then ((method.routeIssue? patternFault?).map Issue.route).toList else []

def tableAfter (table : TypeTable) : Subject → TypeTable
  | .declare name => table.declare name
  | _ => table

def issuesOfAll (patternFault? : String → Option String) (options : Options) :
    TypeTable → List Subject → List Issue
  | _, [] => []
  | table, subject :: others =>
    subject.issues patternFault? options table
      ++ issuesOfAll patternFault? options (subject.tableAfter table) others

end Subject

section

variable (patternFault? : String → Option String) (options : Options)

theorem issues_subject (table : TypeTable) (question : Question) :
    (question.findings patternFault? options table).map Finding.issue
      = question.subject.issues patternFault? options table := by
  cases question with
  | tags site found =>
    simp only [findings, subject, Subject.issues, Walk.tagIssues, List.map_filterMap,
      List.filterMap_map]
    congr 1
    funext entry
    simp [Function.comp_def]
  | declare name => rfl
  | type type place => simp [findings, subject, Subject.issues, Function.comp_def]
  | route method place =>
    simp only [findings, subject, Subject.issues]
    split
    · cases method.routeIssue? patternFault? <;> rfl
    · rfl

theorem tableAfter_subject (table : TypeTable) (question : Question) :
    question.subject.tableAfter table = question.tableAfter table := by
  cases question <;> rfl

theorem issues_findingsOfAll (table : TypeTable) (asked : List Question) :
    (findingsOfAll patternFault? options table asked).map Finding.issue
      = Subject.issuesOfAll patternFault? options table (asked.map subject) := by
  induction asked generalizing table with
  | nil => rfl
  | cons question others ih =>
    simp only [findingsOfAll, List.map_append, List.map_cons, Subject.issuesOfAll,
      issues_subject, tableAfter_subject, ih]

end

end Question

mutual

/-- What there is to ask about a property. -/
def Property.subjects : Property → List Question.Subject
  | .plain field => [.tags .field field.tags, .type field.type]
  | .inline field properties => .tags .field field.tags :: Property.subjectsOfAll properties

def Property.subjectsOfAll : List Property → List Question.Subject
  | [] => []
  | property :: others => property.subjects ++ Property.subjectsOfAll others

end

def Parameter.subjects (parameter : Parameter) : List Question.Subject :=
  [.tags .parameter parameter.tags, .type parameter.type]

/-- What there is to ask about a method. A route does not depend on the description. -/
def Method.subjects (method : Method) : List Question.Subject :=
  .tags .method method.tags :: method.parameters.flatMap Parameter.subjects
    ++ .type method.returnType
      :: if method.verb?.isSome then [.route { method with description := none }] else []

/-- What there is to ask about an entity. -/
def Entity.subjects : Entity → List Question.Subject
  | .comment _ => []
  | .enumeration declared => [.tags .type declared.tags, .declare declared.name]
  | .dataType declared =>
    .tags .type declared.tags :: .declare declared.name
      :: Property.subjectsOfAll declared.properties
  | .method declared => declared.subjects

@[simp] theorem Entity.subjects_describe (entity : Entity) (description : Option String) :
    (entity.describe description).subjects = entity.subjects := by
  cases entity <;> rfl

@[simp] theorem Property.subjects_mapField_description (property : Property)
    (description : Option String) :
    (property.mapField fun field => { field with description }).subjects = property.subjects := by
  cases property <;> rfl

theorem Property.subjectsOfAll_append (first second : List Property) :
    subjectsOfAll (first ++ second) = subjectsOfAll first ++ subjectsOfAll second := by
  induction first with
  | nil => rfl
  | cons property others ih => simp [subjectsOfAll, ih]

/-!
## The answers are what the walk finds
-/

mutual

theorem TypeTable.issues_eq_nodes (table : TypeTable) :
    (type : TypeRef) → table.issues type
      = type.nodes.filterMap fun node => table.nameIssue? node.name node.generics.length
  | .mk name isList generics => by
    have arguments := TypeTable.issuesOfAll_eq_nodes table generics
    cases found : table.nameIssue? name generics.length <;>
      simp [TypeTable.issues, TypeRef.nodes, TypeRef.name, TypeRef.generics, found, arguments]

theorem TypeTable.issuesOfAll_eq_nodes (table : TypeTable) :
    (types : List TypeRef) → table.issuesOfAll types
      = (TypeRef.nodesOfAll types).filterMap fun node =>
          table.nameIssue? node.name node.generics.length
  | [] => rfl
  | type :: others => by
    have first := TypeTable.issues_eq_nodes table type
    have rest := TypeTable.issuesOfAll_eq_nodes table others
    simp only [TypeTable.issuesOfAll, TypeRef.nodesOfAll, List.filterMap_append, first, rest]

end

theorem Walk.typeIssues_eq (table : TypeTable) (type : TypeRef) :
    Walk.typeIssues table type = (table.issues type).map Issue.type := by
  rw [TypeTable.issues_eq_nodes, Walk.typeIssues, List.map_filterMap]

namespace Question.Subject

variable (patternFault? : String → Option String) (options : Options) (table : TypeTable)

/-- Behind subjects that declare nothing the table is the same. -/
def Keeps (subjects : List Subject) : Prop :=
  ∀ subject ∈ subjects, ∀ table : TypeTable, subject.tableAfter table = table

theorem issuesOfAll_append {first : List Subject} (keeps : Keeps first)
    (second : List Subject) :
    issuesOfAll patternFault? options table (first ++ second)
      = issuesOfAll patternFault? options table first
        ++ issuesOfAll patternFault? options table second := by
  induction first with
  | nil => rfl
  | cons subject others ih =>
    simp only [List.cons_append, issuesOfAll, keeps subject List.mem_cons_self, List.append_assoc,
      ih fun other member => keeps other (List.mem_cons_of_mem _ member)]

mutual

theorem keeps_property : (property : Property) → Keeps property.subjects
  | .plain field => by
    intro subject member table
    simp only [Property.subjects, List.mem_cons, List.not_mem_nil, or_false] at member
    rcases member with rfl | rfl <;> rfl
  | .inline field properties => by
    intro subject member table
    rcases List.mem_cons.mp member with rfl | member
    · rfl
    · exact keeps_properties properties subject member table

theorem keeps_properties : (properties : List Property) → Keeps (Property.subjectsOfAll properties)
  | [] => by intro subject member; simp [Property.subjectsOfAll] at member
  | property :: others => by
    intro subject member table
    rcases List.mem_append.mp member with member | member
    · exact keeps_property property subject member table
    · exact keeps_properties others subject member table

end

theorem keeps_parameters (parameters : List Parameter) :
    Keeps (parameters.flatMap Parameter.subjects) := by
  intro subject member table
  obtain ⟨parameter, -, member⟩ := List.mem_flatMap.mp member
  simp only [Parameter.subjects, List.mem_cons, List.not_mem_nil, or_false] at member
  rcases member with rfl | rfl <;> rfl

mutual

theorem issuesOfAll_property : (property : Property) →
    issuesOfAll patternFault? options table property.subjects
      = property.preorder.flatMap (Walk.propertyIssues options table)
  | .plain field => by
    simp [Property.subjects, Property.preorder, issuesOfAll, issues, tableAfter,
      Walk.propertyIssues, Property.field, Property.isInline, Walk.typeIssues_eq]
  | .inline field properties => by
    have body := issuesOfAll_properties properties
    simp only [Property.subjects, Property.preorder, issuesOfAll, issues, tableAfter,
      List.flatMap_cons, body]
    simp [Walk.propertyIssues, Property.field, Property.isInline]

theorem issuesOfAll_properties : (properties : List Property) →
    issuesOfAll patternFault? options table (Property.subjectsOfAll properties)
      = (Property.preorderOfAll properties).flatMap (Walk.propertyIssues options table)
  | [] => rfl
  | property :: others => by
    have first := issuesOfAll_property property
    have rest := issuesOfAll_properties others
    simp only [Property.subjectsOfAll, Property.preorderOfAll, List.flatMap_append,
      issuesOfAll_append _ _ _ (keeps_property property), first, rest]

end

theorem issuesOfAll_parameters (parameters : List Parameter) :
    issuesOfAll patternFault? options table (parameters.flatMap Parameter.subjects)
      = parameters.flatMap (Walk.parameterIssues options table) := by
  induction parameters with
  | nil => rfl
  | cons parameter others ih =>
    simp [Parameter.subjects, issuesOfAll, issues, tableAfter, ih, Walk.parameterIssues,
      Walk.typeIssues_eq]

theorem issuesOfAll_method (method : Method) :
    issuesOfAll patternFault? options table method.subjects
      = Walk.entityIssues options patternFault? table (.method method) := by
  have route : issuesOfAll patternFault? options table
      (if method.verb?.isSome then [.route { method with description := none }] else [])
      = Walk.routeIssues options patternFault? method := by
    cases verb : method.verb?.isSome with
    | false => simp [Walk.routeIssues, verb, issuesOfAll]
    | true =>
      simp only [if_true, issuesOfAll, issues, Walk.routeIssues, verb, Bool.and_true,
        List.append_nil]
      rfl
  have signature := keeps_parameters method.parameters
  simp only [Method.subjects, List.cons_append, issuesOfAll, tableAfter,
    issuesOfAll_append _ _ _ signature, route, issuesOfAll_parameters]
  simp [issues, Walk.entityIssues, Walk.typeIssues_eq]

theorem issuesOfAll_entity (entity : Entity) (later : List Subject) :
    issuesOfAll patternFault? options table (entity.subjects ++ later)
      = Walk.entityIssues options patternFault? table entity
        ++ issuesOfAll patternFault? options (Walk.tableAfter table entity) later := by
  cases entity with
  | comment text => rfl
  | enumeration declared =>
    simp [Entity.subjects, issuesOfAll, issues, tableAfter, Walk.entityIssues, Walk.tableAfter]
  | dataType declared =>
    -- The name is declared before the members, and these declare nothing.
    have members := keeps_properties declared.properties
    simp [Entity.subjects, issuesOfAll, issues, tableAfter, Walk.entityIssues, Walk.tableAfter,
      issuesOfAll_append _ _ _ members, issuesOfAll_properties]
  | method declared =>
    have keeps : Keeps declared.subjects := by
      intro subject member table
      simp only [Method.subjects, List.cons_append, List.mem_cons, List.mem_append] at member
      rcases member with rfl | member | rfl | member
      · rfl
      · exact keeps_parameters _ subject member table
      · rfl
      · split at member
        · rw [List.mem_singleton.mp member]; rfl
        · simp at member
    simp only [Entity.subjects, issuesOfAll_append _ _ _ keeps, issuesOfAll_method,
      Walk.tableAfter]

theorem issuesOfAll_entities (entities : List Entity) :
    issuesOfAll patternFault? options table (entities.flatMap Entity.subjects)
      = Walk.issuesAmong options patternFault? table entities := by
  induction entities generalizing table with
  | nil => rfl
  | cons entity others ih =>
    rw [List.flatMap_cons, issuesOfAll_entity, ih, Walk.issuesAmong]

end Question.Subject

end ApiDef
