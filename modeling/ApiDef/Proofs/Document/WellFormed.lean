import ApiDef.Proofs.Document.Comments
import ApiDef.Proofs.Document.Descriptions
import ApiDef.Proofs.Model.Reread
set_option autoImplicit false

/-!
# Documents are well-formed

Whatever text is read, the entities of the document could be spelled, the grammar allows them, they nest
within the limit, and every description in them is made of lines of the text.
-/

namespace ApiDef

open Text

namespace Property

mutual

/-- The descriptions of a property and of the properties in its body. -/
def descriptions : Property → List String
  | plain field => field.description.toList
  | inline field properties => field.description.toList ++ descriptionsOfAll properties

def descriptionsOfAll : List Property → List String
  | [] => []
  | property :: others => descriptions property ++ descriptionsOfAll others

end

end Property

/-- The descriptions of an entity and of the properties in it, however deep. -/
def Entity.descriptions : Entity → List String
  | comment _ => []
  | enumeration declared => declared.description.toList
  | dataType declared =>
    declared.description.toList ++ Property.descriptionsOfAll declared.properties
  | method declared => declared.description.toList

/-- Each line of a description is one line, and what a line of the text says behind two slashes. -/
def Text.IsTold (sources : List String) (description : String) : Prop :=
  ∀ line ∈ lines description,
    '\n' ∉ line.toList ∧ ∃ source ∈ sources, slashedLine? source = some line

namespace Text

variable {sources : List String}

theorem not_lineFeed_mem_of_slashedLine? {source text : String} (oneLine : '\n' ∉ source.toList)
    (slashed : slashedLine? source = some text) : '\n' ∉ text.toList := by
  unfold slashedLine? at slashed
  split at slashed
  next comment trimmed =>
    obtain rfl := Option.some.inj slashed
    intro lineFeed
    rw [String.toList_ofList] at lineFeed
    have inLine : '\n' ∈ trimStart source.toList := by
      rw [trimmed]
      exact List.mem_cons_of_mem _
        (List.mem_cons_of_mem _ (mem_of_mem_dropCarriageReturn lineFeed))
    exact oneLine ((List.dropWhile_suffix _).subset inLine)
  next => cases slashed

theorem exists_of_mem_describingTexts {above : List String} {text : String}
    (member : text ∈ describingTexts above) : ∃ source ∈ above, slashedLine? source = some text := by
  obtain ⟨source, taken, slashed⟩ := List.mem_filterMap.mp member
  exact ⟨source, (List.rtakeWhile_suffix _ _).subset taken, slashed⟩

/-- What the lines of a gap say is told by lines of the text. -/
theorem isTold_of_gapDescription (oneLine : ∀ source ∈ sources, '\n' ∉ source.toList)
    {codeLine line : Nat} {description : String}
    (member : description ∈ (gapDescription sources codeLine line).toList) :
    IsTold sources description := by
  have told := Option.mem_toList.mp member
  unfold gapDescription at told
  generalize above : (sources.take (line - 1)).drop codeLine = gap at told
  have inGap : ∀ source ∈ gap, source ∈ sources := by
    rw [← above]
    exact fun source member => List.mem_of_mem_take (List.mem_of_mem_drop member)
  have each : ∀ text ∈ describingTexts gap,
      '\n' ∉ text.toList ∧ ∃ source ∈ sources, slashedLine? source = some text := by
    intro text member
    obtain ⟨source, inSources, slashed⟩ := exists_of_mem_describingTexts member
    have line := oneLine source (inGap source inSources)
    exact ⟨not_lineFeed_mem_of_slashedLine? line slashed, source, inGap source inSources, slashed⟩
  cases texts : describingTexts gap with
  | nil => simp [texts] at told
  | cons first later =>
    simp only [texts, List.isEmpty_cons] at told
    obtain rfl := Option.some.inj told
    rw [texts] at each
    have split : lines (String.intercalate "\n" (first :: later)) = first :: later :=
      lines_intercalate (List.cons_ne_nil first later) fun text member => (each text member).1
    rw [IsTold, split]
    exact each

theorem not_lineFeed_mem_lines (text : String) : ∀ line ∈ lines text, '\n' ∉ line.toList := by
  intro line member
  obtain ⟨cs, inText, rfl⟩ := List.mem_map.mp member
  rw [String.toList_ofList]
  exact not_mem_of_mem_splitOn inText

end Text

namespace Reader

variable {sources : List String} (oneLine : ∀ source ∈ sources, '\n' ∉ source.toList)

include oneLine

theorem isTold_of_describedBody {limit levels : Nat} {code : Cursor} {properties : List Property}
    (described : DescribedBody sources limit levels code properties) :
    ∀ description ∈ Property.descriptionsOfAll properties, IsTold sources description := by
  induction described with
  | closed => exact fun _ member => absurd member List.not_mem_nil
  | plain _ _ _ _ later =>
    intro description member
    rcases List.mem_append.mp member with member | member
    · exact isTold_of_gapDescription oneLine member
    · exact later description member
  | inline _ _ _ _ _ _ inside later =>
    intro description member
    rcases List.mem_append.mp member with member | member
    · rcases List.mem_append.mp member with member | member
      · exact isTold_of_gapDescription oneLine member
      · exact inside description member
    · exact later description member

theorem isTold_of_describedItems {grammar : Grammar} {codeLine : Nat} {code : Cursor}
    {items : List Item} (described : DescribedItems sources grammar codeLine code items) :
    ∀ item ∈ items, ∀ description ∈ item.entity.descriptions, IsTold sources description := by
  induction described with
  | ended => exact fun _ member => absurd member List.not_mem_nil
  | @declaration _ _ _ _ entity _ _ _ inside _ ih =>
    intro item member
    rcases List.mem_cons.mp member with rfl | member
    · intro description member
      cases entity with
      | comment => exact absurd member List.not_mem_nil
      | enumeration => exact isTold_of_gapDescription oneLine member
      | method => exact isTold_of_gapDescription oneLine member
      | dataType declared =>
        rcases List.mem_append.mp member with member | member
        · exact isTold_of_gapDescription oneLine member
        · obtain ⟨opening, -, body⟩ := inside declared rfl
          exact isTold_of_describedBody oneLine body description member
    · exact ih item member

end Reader

namespace Document

variable {patternFault? : String → Option String} {options : Options} {text : String} {document : Document}

theorem isTold_of_read (accepted : readWith patternFault? options text = .ok document) :
    ∀ entity ∈ document.entities, ∀ description ∈ entity.descriptions,
      IsTold (lines text) description := by
  obtain ⟨after, asked, read, -⟩ := readWith_eq_ok accepted
  have described := Reader.leadsToItems_document options.grammar (.start text) _ _ _ read
    (.start text) rfl (Reader.collectedAt_start text).ready
  intro entity member
  obtain ⟨item, inItems, rfl⟩ := List.mem_map.mp member
  cases isComment : item.entity.isComment with
  | true =>
    cases same : item.entity with
    | comment => exact fun _ member => absurd member List.not_mem_nil
    | enumeration | dataType | method => simp [same, Entity.isComment, Entity.kind] at isComment
  | false =>
    have declared : item ∈ Reader.declarations document.items :=
      List.mem_filter.mpr ⟨inItems, by rw [isComment]; rfl⟩
    exact Reader.isTold_of_describedItems (not_lineFeed_mem_lines text) described item declared

/-- The entities of a document are well-formed, allowed and within the nesting limit, and the lines of
their descriptions are lines of the text. -/
theorem wellFormed_of_read (accepted : readWith patternFault? options text = .ok document) :
    ∀ entity ∈ document.entities,
      entity.isWellFormed = true ∧ entity.isAllowed options.grammar = true
        ∧ entity.nesting ≤ options.maxNestingDepth
        ∧ ∀ description ∈ entity.descriptions, IsTold (lines text) description := by
  obtain ⟨wellFormed, allowed, nesting⟩ := content_of_read accepted
  intro entity member
  exact ⟨wellFormed entity member, allowed entity member,
    Entity.nestingOfAll_le_iff.mp nesting entity member, isTold_of_read accepted entity member⟩

theorem wellFormed_of_read_describedText :
    ∃ document, readWith (fun _ => none) .permissive describedText = .ok document
      ∧ document.entities.length = 3
      ∧ ∀ entity ∈ document.entities,
        entity.isWellFormed = true ∧ entity.isAllowed Options.permissive.grammar = true
          ∧ entity.nesting ≤ Options.permissive.maxNestingDepth
          ∧ ∀ description ∈ entity.descriptions, IsTold (lines describedText) description := by
  have cleanly : readsCleanly (fun _ => none) .permissive (fun entities => entities.length = 3)
      describedText.toList = true := by
    decide +kernel
  obtain ⟨document, accepted, three⟩ := exists_of_readsCleanly _ cleanly
  rw [String.ofList_toList] at accepted
  exact ⟨document, accepted, of_decide_eq_true three, wellFormed_of_read accepted⟩

end Document

end ApiDef
