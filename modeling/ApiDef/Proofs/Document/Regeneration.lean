import ApiDef.Proofs.Document.RoundTrip
import ApiDef.Proofs.Schema.Revalidated
set_option autoImplicit false

/-!
# Reading regenerated text

What strict reading accepts with REST can go into a schema and come back as text. That text is
accepted again, and it contains the regenerated entities.
-/

namespace ApiDef.Document

open Text

variable {patternFault? : String → Option String} {options : Options}

/-- Entities without issues are accepted from their layout. -/
theorem exists_read_write {entities : List Entity} (indentation : Indentation)
    (valid : ∀ entity ∈ entities, entity.isWellFormed = true)
    (allowed : ∀ entity ∈ entities, entity.isAllowed options.grammar = true)
    (fits : Entity.nestingOfAll entities ≤ options.maxNestingDepth)
    (clean : Walk.issues options patternFault? entities = []) :
    ∃ document, readWith patternFault? options (Layout.write indentation entities) = .ok document
      ∧ document.entities = Entity.rereadAll entities := by
  obtain ⟨items, after, asked, ran, same⟩ := exists_outcome_write indentation valid allowed fits
  have issues : (findingsAbout patternFault? options asked).map Finding.issue
      = Walk.issues options patternFault? (items.map Item.entity) := issues_findingsAbout ran
  rw [same, Walk.issues_rereadAll, clean, List.map_eq_nil_iff] at issues
  exact ⟨_, readWith_of_done ran (.inr issues), same⟩

/-- A text that is accepted strictly and with REST is accepted again after a way through a schema. -/
theorem exists_read_write_toEntities {text : String} {document : Document}
    (strict : options.softErrors = false) (rest : options.rest = true)
    (accepted : readWith patternFault? options text = .ok document)
    (distinct : ∀ entity ∈ document.entities, entity.hasDistinctParameters = true)
    (indentation : Indentation) :
    ∃ again, readWith patternFault? options
        (Layout.write indentation (Schema.toEntities (Schema.ofEntities document.entities)))
          = .ok again
      ∧ again.entities = Entity.rereadAll (Entity.regenerated document.entities) := by
  obtain ⟨valid, allowed, fits⟩ := content_of_read accepted
  have clean := issues_of_strict_read strict accepted
  have validAgain := Entity.isWellFormed_regenerated valid
  -- The layout does not show how types are held, so it is that of the regenerated entities.
  rw [Schema.toEntities_ofEntities distinct,
    Layout.write_mapTypes TypeRef.keepsSpelling_respelled indentation validAgain]
  exact exists_read_write indentation validAgain (Entity.isAllowed_regenerated allowed)
    (Entity.nestingOfAll_regenerated fits) (Walk.issues_regenerated rest clean)

/-- A method stands before the type behind it, names its verb and transport in its own way, and a
body names one property twice. -/
def boxesText : String :=
  "Box \x7b id: string kid: \x7b id: Box[] \x7d id: integer \x7d\n"
    ++ "@get(\"/boxes/\x7bno: [0-9]+\x7d\", \"x\") getBox(@path(\"no\") id: string, all: boolean): Box\n"
    ++ "# more\nenum Kind \x7b A, B \x7d"

theorem exists_read_write_toEntities_boxes :
    ∃ document, readWith (fun _ => none) .permissive boxesText = .ok document
      ∧ ∃ again, readWith (fun _ => none) .permissive
          (Layout.write .tab (Schema.toEntities (Schema.ofEntities document.entities))) = .ok again
        ∧ again.entities = Entity.rereadAll (Entity.regenerated document.entities) := by
  have cleanly : readsCleanly (fun _ => none) .permissive
      (fun entities => entities.all Entity.hasDistinctParameters) boxesText.toList = true := by
    decide +kernel
  obtain ⟨document, accepted, passes⟩ := exists_of_readsCleanly _ cleanly
  rw [String.ofList_toList] at accepted
  have distinct : ∀ entity ∈ document.entities, entity.hasDistinctParameters = true :=
    List.all_eq_true.mp passes
  exact ⟨document, accepted, exists_read_write_toEntities rfl rfl accepted distinct .tab⟩

end ApiDef.Document
