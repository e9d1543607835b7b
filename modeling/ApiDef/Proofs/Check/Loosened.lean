import ApiDef.Proofs.Check.Growth
import ApiDef.Proofs.Model.Reread
import ApiDef.Proofs.Reader.Loosened
import Mathlib.Data.List.Induction
set_option autoImplicit false

/-!
# Loosened options

Options are loosened by allowing more constructs, deeper nesting, more tags and more types without
arguments. Types are the delicate part: a text may declare a type that the looser options know already.
It is a type without arguments either way, so what nothing was wrong with stays right.
-/

namespace ApiDef

open Text

namespace TypeTable

/-- A name without angle brackets is a signature without arguments. -/
theorem readSignature_of_isIdentifier {name : String} (valid : isIdentifier name = true) :
    readSignature name = (name, 0) := by
  obtain ⟨first, others, same, -, inside⟩ := exists_of_isIdentifier valid
  have solid : ∀ c ∈ name.toList, isBlank c = false :=
    fun c member => Reader.not_isBlank_of_isIdentifierChar (inside c member)
  have front : trimStart name.toList = name.toList := by
    apply trimStart_of_stops
    intro c rest whole
    exact solid c (whole ▸ List.mem_cons_self)
  have back : trimEnd name.toList = name.toList :=
    trimEnd_eq fun c last => solid c (List.mem_of_getLast? last)
  have plain : cutAt? '<' name.toList = none := by
    apply cutAt?_eq_none_iff.mpr
    intro member
    exact absurd (inside _ member) (by decide)
  simp only [readSignature, trim, front, back, plain, String.ofList_toList]

theorem arity?_builtin {name : String} (other : name ∉ builtinTypes) : builtin.arity? name = none := by
  rw [arity?, builtin, List.lookup_eq_none_iff]
  intro entry member
  obtain ⟨known, inside, rfl⟩ := List.mem_map.mp member
  apply bne_iff_ne.mpr
  rintro rfl
  exact other inside

theorem ofSignatures_concat (signatures : List String) (signature : String) :
    ofSignatures (signatures ++ [signature])
      = (ofSignatures signatures).insert (readSignature signature).1 (readSignature signature).2 := by
  rw [ofSignatures, List.foldl_append]
  rfl

/-- Only built-in names and those of the signatures are known from the start. -/
theorem arity?_ofSignatures {signatures : List String} {name : String} (notBuiltin : name ∉ builtinTypes)
    (new : ∀ signature ∈ signatures, (readSignature signature).1 ≠ name) :
    (ofSignatures signatures).arity? name = none := by
  induction signatures using List.reverseRecOn with
  | nil => exact arity?_builtin notBuiltin
  | append_singleton earlier signature ih =>
    obtain ⟨before, last⟩ := List.forall_mem_append.mp new
    have different : name ≠ (readSignature signature).1 := (last signature List.mem_cons_self).symm
    rw [ofSignatures_concat, arity?_insert, if_neg different]
    exact ih before

/-- Further names behind the signatures, which do not mention them, only add to the table. -/
theorem grows_ofSignatures {signatures names : List String}
    (plain : ∀ name ∈ names, isIdentifier name = true)
    (unknown : ∀ name ∈ names, (ofSignatures signatures).arity? name = none) :
    (ofSignatures signatures).Grows (ofSignatures (signatures ++ names)) := by
  induction names using List.reverseRecOn with
  | nil =>
    rw [List.append_nil]
    exact .refl _
  | append_singleton earlier name ih =>
    obtain ⟨plainBefore, plainLast⟩ := List.forall_mem_append.mp plain
    obtain ⟨unknownBefore, unknownLast⟩ := List.forall_mem_append.mp unknown
    rw [← List.append_assoc, ofSignatures_concat,
      readSignature_of_isIdentifier (plainLast name List.mem_cons_self)]
    exact (ih plainBefore unknownBefore).insert (unknownLast name List.mem_cons_self)

end TypeTable

namespace Options

/-- A name that can be added to the types of the options without changing what they say so far. -/
structure IsNewType (options : Options) (name : String) : Prop where
  plain : isIdentifier name = true
  notBuiltin : name ∉ builtinTypes
  new : ∀ signature ∈ options.validTypes, (TypeTable.readSignature signature).1 ≠ name

/-- The second options allow more constructs, deeper nesting, more tags and more types. -/
structure Loosened (options looser : Options) : Prop where
  methods : options.methods = true → looser.methods = true
  types : options.types = true → looser.types = true
  rest : looser.rest = options.rest
  softErrors : looser.softErrors = options.softErrors
  depth : options.maxNestingDepth ≤ looser.maxNestingDepth
  tags : ∀ site, options.tagNames site <+: looser.tagNames site
  validTypes : ∃ names, looser.validTypes = options.validTypes ++ names
    ∧ ∀ name ∈ names, options.IsNewType name

variable {options looser : Options}

theorem IsNewType.arity? {name : String} (newType : options.IsNewType name) :
    (TypeTable.ofSignatures options.validTypes).arity? name = none :=
  TypeTable.arity?_ofSignatures newType.notBuiltin newType.new

theorem Loosened.grammar (loosened : options.Loosened looser) : options.grammar.Within looser.grammar :=
  ⟨loosened.methods, loosened.types, loosened.depth⟩

theorem Loosened.allowedTags (loosened : options.Loosened looser) (site : Site) :
    options.allowedTags site ⊆ looser.allowedTags site := by
  obtain ⟨further, same⟩ := loosened.tags site
  rw [Options.allowedTags, Options.allowedTags, loosened.rest, ← same, List.map_append]
  intro name member
  rcases List.mem_append.mp member with own | rest
  · exact List.mem_append_left _ (List.mem_append_left _ own)
  · exact List.mem_append_right _ rest

theorem Loosened.table (loosened : options.Loosened looser) :
    (TypeTable.ofSignatures options.validTypes).Grows (.ofSignatures looser.validTypes) := by
  obtain ⟨names, same, newTypes⟩ := loosened.validTypes
  rw [same]
  exact TypeTable.grows_ofSignatures (fun name member => (newTypes name member).plain)
    fun name member => (newTypes name member).arity?

end Options

namespace Question

variable {patternFault? : String → Option String} {options looser : Options} {table larger : TypeTable}

theorem tagIssue?_loosened (loosened : options.Loosened looser) {site : Site} {tag : Tag}
    (fine : tagIssue? options site tag = none) : tagIssue? looser site tag = none := by
  obtain ⟨name, allowed, named⟩ := tagIssue?_eq_none_iff.mp fine
  exact tagIssue?_eq_none_iff.mpr ⟨name, loosened.allowedTags site allowed, named⟩

namespace Subject

theorem issues_loosened (loosened : options.Loosened looser) {subject : Subject}
    (clean : subject.issues patternFault? options table = []) :
    subject.issues patternFault? looser table = [] := by
  cases subject with
  | tags site found =>
    rw [issues, Walk.tagIssues_eq_nil_iff] at clean ⊢
    exact fun tag member => tagIssue?_loosened loosened (clean tag member)
  | declare => rfl
  | type declared => exact clean
  | route method =>
    rw [issues, loosened.rest]
    exact clean

/-- Where nothing is wrong under the options, nothing is wrong under looser ones. -/
theorem issuesOfAll_loosened (loosened : options.Loosened looser) {subjects : List Subject}
    (clean : issuesOfAll patternFault? options table subjects = []) :
    issuesOfAll patternFault? looser table subjects = [] := by
  induction subjects generalizing table with
  | nil => rfl
  | cons subject others ih =>
    obtain ⟨here, later⟩ := List.append_eq_nil_iff.mp clean
    exact List.append_eq_nil_iff.mpr ⟨issues_loosened loosened here, ih later⟩

end Subject

end Question

end ApiDef
