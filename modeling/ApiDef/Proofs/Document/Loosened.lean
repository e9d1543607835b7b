import ApiDef.Proofs.Check.Loosened
import ApiDef.Proofs.Document.Findings
set_option autoImplicit false

/-!
# Documents under looser options

A text that is accepted stays accepted when options are loosened, and it is the same document. Strictness
matters: where findings are collected, looser options find less.
-/

namespace ApiDef.Document

variable {patternFault? : String → Option String} {options looser : Options}

/-- Questions to which nothing is found under the options have no findings under looser ones: the tags
that were allowed are allowed, and the types that were known are known with as many arguments. -/
theorem findingsAbout_loosened (loosened : options.Loosened looser) {asked : List Question}
    (clean : findingsAbout patternFault? options asked = []) :
    findingsAbout patternFault? looser asked = [] := by
  rw [findingsAbout_eq_nil_iff] at clean ⊢
  exact Question.Subject.issuesOfAll_grows loosened.table
    (Question.Subject.issuesOfAll_loosened loosened clean)

/-- A text that is accepted under strict options is the same document under looser ones. -/
theorem readWith_loosened (patternFault? : String → Option String) (options looser : Options)
    (strict : options.softErrors = false) (loosened : options.Loosened looser) (text : String)
    (document : Document) (read : readWith patternFault? options text = .ok document) :
    readWith patternFault? looser text = .ok document := by
  obtain ⟨after, asked, ran, found, nothing⟩ := readWith_eq_ok read
  have clean : findingsAbout patternFault? options asked = [] := found ▸ nothing strict
  have cleanLooser := findingsAbout_loosened loosened clean
  have ranLooser : outcome looser.grammar text = .done document.items after asked :=
    Reader.refines_document loosened.grammar _ _ _ _ ran
  rw [readWith_of_done ranLooser (.inr cleanLooser), cleanLooser, ← nothing strict]

/-- Nothing but enumerations and data types, with one further type and one tag. -/
def tableOptions : Options :=
  { Options.default with
    types := true, validTypes := ["Map<*,*>"], typeTags := ["Table"], maxNestingDepth := 3 }

/-- Among the further types are those that `tableText` declares itself. -/
def looserTableOptions : Options :=
  { tableOptions with
    methods := true, validTypes := ["Map<*,*>", "Kind", "Box", "Kind"], typeTags := ["Table", "@View"],
    fieldTags := ["Required"], maxNestingDepth := 9 }

def tableText : String :=
  "@Table enum Kind \x7b A \x7d\nBox \x7b kid: \x7b bag: Map<Kind, Box[]> \x7d \x7d"

theorem loosened_tableOptions : tableOptions.Loosened looserTableOptions where
  methods := by decide
  types := by decide
  rest := rfl
  softErrors := rfl
  depth := by decide
  tags site := by cases site <;> decide
  validTypes := by
    refine ⟨["Kind", "Box", "Kind"], rfl, ?_⟩
    have new : ∀ name ∈ ["Kind", "Box", "Kind"], Text.isIdentifier name = true ∧ name ∉ builtinTypes
        ∧ ∀ signature ∈ tableOptions.validTypes, (TypeTable.readSignature signature).1 ≠ name := by
      decide +kernel
    intro name member
    obtain ⟨plain, notBuiltin, unlike⟩ := new name member
    exact ⟨plain, notBuiltin, unlike⟩

theorem readWith_loosened_tableText :
    tableOptions.softErrors = false ∧ tableOptions.Loosened looserTableOptions ∧ ∃ document,
      readWith (fun _ => none) tableOptions tableText = .ok document
      ∧ readWith (fun _ => none) looserTableOptions tableText = .ok document
      ∧ document.entities.length = 2 := by
  have two : ((readWith (fun _ => none) tableOptions tableText).toOption.map
      fun document => document.entities.length) = some 2 := by
    decide +kernel
  cases read : readWith (fun _ => none) tableOptions tableText with
  | error =>
    rw [read] at two
    cases two
  | ok document =>
    rw [read] at two
    exact ⟨rfl, loosened_tableOptions, document, rfl,
      readWith_loosened _ _ _ rfl loosened_tableOptions _ _ read, Option.some.inj two⟩

end ApiDef.Document
