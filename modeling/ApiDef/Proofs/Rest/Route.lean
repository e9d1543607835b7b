import ApiDef.Rest.Route
set_option autoImplicit false

/-!
# Routes that can be bound

A route has no issue exactly if its path template and its parameters cover each other. This says
nothing about an order of the parameters, so no order of them matters.
-/

namespace ApiDef

/-!
## The first tag of a kind
-/

section

variable {κ : Type} {ofName? : String → Option κ} {tags : List Tag} {kind : κ} {tag : Tag}

/-- The tag is the first one whose name says a kind, and says this one. -/
def FirstNamed (ofName? : String → Option κ) (tags : List Tag) (kind : κ) (tag : Tag) : Prop :=
  ∃ before after, tags = before ++ tag :: after ∧ ofName? tag.name = some kind
    ∧ ∀ earlier ∈ before, ofName? earlier.name = none

theorem findSome?_eq_some_iff_firstNamed :
    tags.findSome? (fun tag => (ofName? tag.name).map fun kind => (kind, tag)) = some (kind, tag)
      ↔ FirstNamed ofName? tags kind tag := by
  have here : ∀ found : Tag,
      (ofName? found.name).map (fun kind => (kind, found)) = some (kind, tag)
        ↔ found = tag ∧ ofName? found.name = some kind := by
    intro found
    cases ofName? found.name <;> simp [and_comm]
  rw [List.findSome?_eq_some_iff]
  constructor
  · intro ⟨before, found, after, same, told, earlier⟩
    obtain ⟨rfl, named⟩ := (here found).mp told
    exact ⟨before, after, same, named, fun tag member => Option.map_eq_none_iff.mp (earlier tag member)⟩
  · intro ⟨before, after, same, named, earlier⟩
    exact ⟨before, tag, after, same, (here tag).mpr ⟨rfl, named⟩,
      fun tag member => Option.map_eq_none_iff.mpr (earlier tag member)⟩

end

theorem Method.verb?_eq_some_iff {method : Method} {verb : Verb} {tag : Tag} :
    method.verb? = some (verb, tag) ↔ FirstNamed Verb.ofName? method.tags verb tag :=
  findSome?_eq_some_iff_firstNamed

theorem Method.verb?_eq_none_iff {method : Method} :
    method.verb? = none ↔ ∀ tag ∈ method.tags, Verb.ofName? tag.name = none := by
  simp [verb?]

/-- The parameter takes its value from the path, where it goes by this name. -/
def Parameter.BindsPath (parameter : Parameter) (name : String) : Prop :=
  ∃ tag, FirstNamed Transport.ofName? parameter.tags .path tag
    ∧ name = tag.firstArgument?.getD parameter.name

theorem Parameter.pathVariable?_eq_some_iff {parameter : Parameter} {name : String} :
    parameter.pathVariable? = some name ↔ parameter.BindsPath name := by
  have found : ∀ transport tag, Transport.find? parameter.tags = some (transport, tag)
      ↔ FirstNamed Transport.ofName? parameter.tags transport tag :=
    fun transport tag => findSome?_eq_some_iff_firstNamed
  simp only [BindsPath, ← found, pathVariable?]
  cases same : Transport.find? parameter.tags with
  | none => simp
  | some entry =>
    obtain ⟨transport, tag⟩ := entry
    cases transport <;> simp [eq_comm]

theorem TypeRef.isStringable_iff {type : TypeRef} :
    type.isStringable = true
      ↔ type.isList = false ∧ type.generics = [] ∧ type.name ∈ stringableTypes := by
  simp [isStringable, isSimple, and_assoc]

/-!
## Templates
-/

/-- The variables of the path that a verb tag gives; without an argument there are none. -/
def Tag.pathVariables (tag : Tag) : List PathVariable :=
  (tag.firstArgument?.map PathTemplate.pathVariables).getD []

theorem PathTemplate.isWellShaped_iff {path : String} :
    isWellShaped path = true
      ↔ path = "/" ∨ ['/'] <+: path.toList ∧ ¬['/'] <:+ path.toList := by
  have starts : path.toList.head? = some '/' ↔ ['/'] <+: path.toList := by
    cases path.toList <;> simp [List.cons_prefix_cons, eq_comm]
  have ends : path.toList.getLast? = some '/' ↔ ['/'] <:+ path.toList := by
    rw [List.getLast?_eq_some_iff]
    exact exists_congr fun front => eq_comm
  simp [isWellShaped, starts, ends]

/-!
## Routes
-/

/-- What a route must be like to be bound: the path is well shaped, its variables are the parameters
that take their values from it, and both are of a kind that a path can carry. -/
structure Route.Covers (patternFault? : String → Option String) (tag : Tag) (parameters : List Parameter) :
    Prop where
  shape : ∀ path, tag.firstArgument? = some path →
    path = "/" ∨ ['/'] <+: path.toList ∧ ¬['/'] <:+ path.toList
  names : ∀ name, (∃ bound ∈ tag.pathVariables, bound.name = name)
    ↔ ∃ parameter ∈ parameters, parameter.BindsPath name
  patterns : ∀ bound ∈ tag.pathVariables, ∀ pattern, bound.pattern = some pattern →
    patternFault? pattern = none
  types : ∀ parameter ∈ parameters, (∃ name, parameter.BindsPath name) →
    parameter.type.isList = false ∧ parameter.type.generics = []
      ∧ parameter.type.name ∈ stringableTypes

namespace Route

variable {patternFault? : String → Option String} {parameters others : List Parameter} {tag : Tag}

/-- Only which parameters there are matters. -/
theorem Covers.congr (same : ∀ parameter, parameter ∈ parameters ↔ parameter ∈ others)
    (covers : Covers patternFault? tag parameters) : Covers patternFault? tag others where
  shape := covers.shape
  names := fun name => (covers.names name).trans
    (exists_congr fun parameter => and_congr_left fun _ => same parameter)
  patterns := covers.patterns
  types := fun parameter member => covers.types parameter ((same parameter).mpr member)

theorem shapeIssue?_eq_none_iff {path : String} :
    shapeIssue? path = none ↔ path = "/" ∨ ['/'] <+: path.toList ∧ ¬['/'] <:+ path.toList := by
  rw [← PathTemplate.isWellShaped_iff, shapeIssue?]
  cases PathTemplate.isWellShaped path <;> simp

theorem variableIssue?_eq_none_iff {bound : PathVariable} :
    variableIssue? patternFault? parameters bound = none
      ↔ (∃ parameter ∈ parameters, parameter.BindsPath bound.name)
        ∧ ∀ pattern, bound.pattern = some pattern → patternFault? pattern = none := by
  have binds : (parameters.any fun parameter => parameter.pathVariable? = some bound.name) = true
      ↔ ∃ parameter ∈ parameters, parameter.BindsPath bound.name := by
    simp only [List.any_eq_true, decide_eq_true_eq, Parameter.pathVariable?_eq_some_iff]
  rw [← binds, variableIssue?]
  split
  next isBound =>
    simp [isBound, Option.bind_eq_none_iff]
  next unbound => simp [unbound]

theorem parameterIssue?_eq_none_iff {bound : List PathVariable} {parameter : Parameter} :
    parameterIssue? bound parameter = none
      ↔ ∀ name, parameter.BindsPath name →
        (∃ other ∈ bound, other.name = name) ∧ parameter.type.isStringable = true := by
  simp only [← Parameter.pathVariable?_eq_some_iff]
  rw [parameterIssue?]
  cases parameter.pathVariable? with
  | none => simp
  | some name =>
    have used : (bound.any fun other => other.name = name) = true
        ↔ ∃ other ∈ bound, other.name = name := by
      simp only [List.any_eq_true, decide_eq_true_eq]
    simp only [Option.some.injEq, forall_eq', used]
    by_cases isUsed : ∃ other ∈ bound, other.name = name
    · rw [if_pos isUsed]
      cases parameter.type.isStringable <;> simp [isUsed]
    · rw [if_neg isUsed]
      simp [isUsed]

/-- The three steps of the check, in one. -/
theorem covers_iff :
    Covers patternFault? tag parameters
      ↔ tag.firstArgument?.bind shapeIssue? = none
        ∧ tag.pathVariables.findSome? (variableIssue? patternFault? parameters) = none
        ∧ parameters.findSome? (parameterIssue? tag.pathVariables) = none := by
  simp only [Option.bind_eq_none_iff, List.findSome?_eq_none_iff, shapeIssue?_eq_none_iff,
    variableIssue?_eq_none_iff, parameterIssue?_eq_none_iff]
  constructor
  · intro covers
    refine ⟨covers.shape, fun bound member => ⟨?_, covers.patterns bound member⟩,
      fun parameter member name binds => ⟨?_, ?_⟩⟩
    · exact (covers.names bound.name).mp ⟨bound, member, rfl⟩
    · exact (covers.names name).mpr ⟨parameter, member, binds⟩
    · exact TypeRef.isStringable_iff.mpr (covers.types parameter member ⟨name, binds⟩)
  · intro ⟨shape, ofVariables, ofParameters⟩
    refine ⟨shape, fun name => ⟨?_, ?_⟩, fun bound member => (ofVariables bound member).2,
      fun parameter member bindsPath => ?_⟩
    · intro ⟨bound, member, same⟩
      exact same ▸ (ofVariables bound member).1
    · intro ⟨parameter, member, binds⟩
      exact (ofParameters parameter member name binds).1
    · obtain ⟨name, binds⟩ := bindsPath
      exact TypeRef.isStringable_iff.mp (ofParameters parameter member name binds).2

end Route

namespace Method

variable {patternFault? : String → Option String} {method : Method}

/-- A method has no verb, or its first one gives a path that the parameters cover. -/
def IsBindable (patternFault? : String → Option String) (method : Method) : Prop :=
  (∀ tag ∈ method.tags, Verb.ofName? tag.name = none)
    ∨ ∃ verb tag, FirstNamed Verb.ofName? method.tags verb tag
      ∧ Route.Covers patternFault? tag method.parameters

theorem routeIssue?_eq_none_iff :
    method.routeIssue? patternFault? = none ↔ method.IsBindable patternFault? := by
  simp only [IsBindable, ← verb?_eq_none_iff, ← verb?_eq_some_iff]
  rw [routeIssue?]
  cases named : method.verb? with
  | none => simp
  | some entry =>
    obtain ⟨verb, tag⟩ := entry
    have first : (∃ other found, some (verb, tag) = some (other, found)
        ∧ Route.Covers patternFault? found method.parameters)
          ↔ Route.Covers patternFault? tag method.parameters :=
      ⟨fun ⟨_, _, same, covers⟩ => (Prod.mk.inj (Option.some.inj same)).2 ▸ covers,
        fun covers => ⟨verb, tag, rfl, covers⟩⟩
    have orElse : ∀ (issue : Option RouteIssue) (next : Unit → Option RouteIssue),
        issue.orElse next = none ↔ issue = none ∧ next () = none := by
      intro issue next
      cases issue <;> simp
    rw [first, Route.covers_iff]
    simp only [orElse, Tag.pathVariables, reduceCtorEq, false_or]

theorem isBindable_permute_iff {parameters : List Parameter}
    (permuted : parameters.Perm method.parameters) :
    { method with parameters }.IsBindable patternFault? ↔ method.IsBindable patternFault? := by
  have covers : ∀ tag, Route.Covers patternFault? tag parameters
      ↔ Route.Covers patternFault? tag method.parameters := fun tag =>
    ⟨.congr fun _ => permuted.mem_iff, .congr fun _ => permuted.mem_iff.symm⟩
  simp only [IsBindable, covers]

/-- Exactly the routes whose path and parameters cover each other have no issue, so the parameters may
stand in any order. -/
theorem routeIssue?_eq_none_in_any_order (patternFault? : String → Option String) (method : Method) :
    (method.routeIssue? patternFault? = none ↔ method.IsBindable patternFault?)
      ∧ ∀ parameters, parameters.Perm method.parameters →
        ({ method with parameters }.routeIssue? patternFault? = none
          ↔ method.routeIssue? patternFault? = none) := by
  refine ⟨routeIssue?_eq_none_iff, fun parameters permuted => ?_⟩
  rw [routeIssue?_eq_none_iff, routeIssue?_eq_none_iff, isBindable_permute_iff permuted]

/-- The second verb and the second transports do not count, and one variable is bound by another name. -/
def itemMethod : Method :=
  ⟨"item", none,
    [⟨"@Cached", [], ∅⟩, ⟨"@get", ["/a/\x7b x :[0-9]+\x7d/\x7by\x7d/\x7by\x7d"], ∅⟩,
      ⟨"@POST", ["b/"], ∅⟩],
    .simple "void",
    [⟨"p", .simple "string", [⟨"@Path", ["x"], ∅⟩]⟩,
      ⟨"y", .simple "long", [⟨"path", [], ∅⟩, ⟨"@Header", [], ∅⟩]⟩,
      ⟨"q", .listOf "Box", [⟨"@Query", [], ∅⟩, ⟨"@Path", ["z"], ∅⟩]⟩]⟩

/-- A library that knows one pattern. -/
def digitsOnly? (pattern : String) : Option String :=
  if pattern = "[0-9]+" then none else some "no digits"

theorem routeIssue?_eq_none_in_any_order_itemMethod :
    itemMethod.IsBindable digitsOnly?
      ∧ { itemMethod with parameters := itemMethod.parameters.reverse }.routeIssue?
        digitsOnly? = none := by
  have noIssue : itemMethod.routeIssue? digitsOnly? = none := by
    decide +kernel
  obtain ⟨exactly, permuted⟩ :=
    routeIssue?_eq_none_in_any_order digitsOnly? itemMethod
  exact ⟨exactly.mp noIssue, (permuted _ (List.reverse_perm _)).mpr noIssue⟩

end Method

end ApiDef
