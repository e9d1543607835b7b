import ApiDef.Proofs.Schema.Revalidated
set_option autoImplicit false

/-!
# Tables that grow

Declarations only add names, and without arguments. So what nothing is wrong with stays right behind
further declarations, even though a name that is declared later keeps the arguments it has by then.
-/

namespace ApiDef

namespace TypeTable

variable {table larger : TypeTable}

/-- The larger table knows what the table knows, and the other names it knows have no arguments. -/
structure Grows (table larger : TypeTable) : Prop where
  within : table.Within larger
  plain : ∀ name, table.arity? name = none → larger.arity? name = none ∨ larger.arity? name = some 0

theorem arity?_declare (table : TypeTable) (name other : String) :
    (table.declare name).arity? other
      = if other = name then some ((table.arity? name).getD 0) else table.arity? other := by
  unfold declare contains
  cases known : table.arity? name with
  | some arity =>
    simp only [Option.isSome_some, if_true, Option.getD_some]
    split
    next same => rw [same, known]
    next => rfl
  | none => exact arity?_insert table name other 0

theorem Grows.refl (table : TypeTable) : table.Grows table :=
  ⟨.refl table, fun _ => .inl⟩

/-- A name that the smaller table does not know may be added without arguments, also more than once. -/
theorem Grows.insert (grows : table.Grows larger) {name : String}
    (unknown : table.arity? name = none) : table.Grows (larger.insert name 0) := by
  constructor
  · intro other arity known
    have different : other ≠ name := by
      rintro rfl
      rw [unknown] at known
      cases known
    rw [arity?_insert, if_neg different]
    exact grows.within other arity known
  · intro other unknownOther
    rw [arity?_insert]
    split
    next => exact .inr rfl
    next => exact grows.plain other unknownOther

theorem grows_declare (table : TypeTable) (name : String) : table.Grows (table.declare name) := by
  unfold TypeTable.declare contains
  cases known : table.arity? name with
  | some arity => exact .refl table
  | none => exact (Grows.refl table).insert known

/-- Whether the name was known before or not, both tables have the same for it. -/
theorem Grows.declare (grows : table.Grows larger) (name : String) :
    (table.declare name).Grows (larger.declare name) := by
  -- A name that only the larger table knows has no arguments there, as a new one would have.
  have same : (larger.arity? name).getD 0 = (table.arity? name).getD 0 := by
    cases known : table.arity? name with
    | some arity => rw [grows.within name arity known]
    | none =>
      rcases grows.plain name known with unknown | plain
      · rw [unknown]
      · rw [plain]
        rfl
  constructor
  · intro other arity known
    rw [arity?_declare] at known ⊢
    split
    next here =>
      rw [if_pos here] at known
      rw [same, known]
    next elsewhere =>
      rw [if_neg elsewhere] at known
      exact grows.within other arity known
  · intro other unknown
    rw [arity?_declare] at unknown ⊢
    split
    next here =>
      rw [if_pos here] at unknown
      cases unknown
    next elsewhere =>
      rw [if_neg elsewhere] at unknown
      exact grows.plain other unknown

end TypeTable

namespace Question.Subject

variable {patternFault? : String → Option String} {options : Options} {table larger : TypeTable}

theorem grows_tableAfter (subject : Subject) (table : TypeTable) :
    table.Grows (subject.tableAfter table) := by
  cases subject with
  | declare name => exact table.grows_declare name
  | tags | type | route => exact .refl table

theorem tableAfter_grows (grows : table.Grows larger) (subject : Subject) :
    (subject.tableAfter table).Grows (subject.tableAfter larger) := by
  cases subject with
  | declare name => exact grows.declare name
  | tags | type | route => exact grows

theorem issues_within (within : table.Within larger) {subject : Subject}
    (clean : subject.issues patternFault? options table = []) :
    subject.issues patternFault? options larger = [] := by
  cases subject with
  | type declared =>
    rw [issues, ← Walk.typeIssues_eq] at clean ⊢
    exact Walk.typeIssues_within within clean
  | tags | declare | route => exact clean

/-- What was right stays right where more is known. -/
theorem issuesOfAll_grows (grows : table.Grows larger) {subjects : List Subject}
    (clean : issuesOfAll patternFault? options table subjects = []) :
    issuesOfAll patternFault? options larger subjects = [] := by
  induction subjects generalizing table larger with
  | nil => rfl
  | cons subject others ih =>
    obtain ⟨here, later⟩ := List.append_eq_nil_iff.mp clean
    exact List.append_eq_nil_iff.mpr
      ⟨issues_within grows.within here, ih (tableAfter_grows grows subject) later⟩

/-- What is right on its own is right behind something else that is. -/
theorem issuesOfAll_append_eq_nil {first second : List Subject}
    (clean : issuesOfAll patternFault? options table first = [])
    (cleanLater : issuesOfAll patternFault? options table second = []) :
    issuesOfAll patternFault? options table (first ++ second) = [] := by
  induction first generalizing table with
  | nil => exact cleanLater
  | cons subject others ih =>
    obtain ⟨here, later⟩ := List.append_eq_nil_iff.mp clean
    exact List.append_eq_nil_iff.mpr
      ⟨here, ih later (issuesOfAll_grows (grows_tableAfter subject table) cleanLater)⟩

end Question.Subject

end ApiDef
