import ApiDef.Proofs.Model.WellFormed
import ApiDef.Proofs.Text.Scanning
set_option autoImplicit false

/-!
# What reading keeps of a text that was written

A reader takes one carriage return from the end of each line of a comment or a description, and the
layout has no blanks at its end. Nothing else changes when entities are written and read.
-/

namespace ApiDef

open Text

theorem not_mem_of_mem_splitOn {mark : Char} {cs line : List Char} (member : line ∈ cs.splitOn mark) :
    mark ∉ line := by
  induction cs generalizing line with
  | nil =>
    rw [List.splitOn_nil, List.mem_singleton] at member
    rw [member]
    exact List.not_mem_nil
  | cons c others ih =>
    rw [List.splitOn_cons_eq_if_modifyHead] at member
    split at member
    next =>
      rcases List.mem_cons.mp member with same | member
      · rw [same]
        exact List.not_mem_nil
      · exact ih member
    next different =>
      cases lines : others.splitOn mark with
      | nil => exact absurd lines (List.splitOn_ne_nil _ _)
      | cons first later =>
        rw [lines, List.modifyHead_cons] at member
        rcases List.mem_cons.mp member with same | member
        · have notInFirst := ih (lines ▸ List.mem_cons_self)
          rw [same, List.mem_cons, not_or]
          exact ⟨fun equal => different (beq_iff_eq.mpr equal.symm), notInFirst⟩
        · exact ih (lines ▸ List.mem_cons_of_mem _ member)

theorem lines_intercalate {texts : List String} (nonempty : texts ≠ [])
    (oneLine : ∀ text ∈ texts, '\n' ∉ text.toList) : lines (String.intercalate "\n" texts) = texts := by
  have split : (['\n'].intercalate (texts.map String.toList)).splitOn '\n'
      = texts.map String.toList := by
    apply List.splitOn_intercalate
    · exact List.forall_mem_map.mpr oneLine
    · exact fun none => nonempty (List.map_eq_nil_iff.mp none)
  have mark : "\n".toList = ['\n'] := rfl
  rw [lines, String.toList_intercalate, mark, split, List.map_map]
  have same : ∀ text ∈ texts, (String.ofList ∘ String.toList) text = text :=
    fun text _ => String.ofList_toList
  rw [List.map_congr_left same]
  exact List.map_id' _

/-- The lines of a description as characters; without a description there are none. -/
def descriptionLines (description : Option String) : List (List Char) :=
  (description.map fun text => text.toList.splitOn '\n').getD []

theorem not_mem_descriptionLines {description : Option String} {line : List Char}
    (member : line ∈ descriptionLines description) : '\n' ∉ line := by
  cases description with
  | none => exact absurd member List.not_mem_nil
  | some text => exact not_mem_of_mem_splitOn member

def rereadLine (line : List Char) : String :=
  String.ofList (dropCarriageReturn line)

def rereadDescription (text : String) : String :=
  String.intercalate "\n" ((text.toList.splitOn '\n').map rereadLine)

def Field.reread (field : Field) : Field :=
  { field with description := field.description.map rereadDescription }

namespace Property

mutual

def reread : Property → Property
  | plain field => plain field.reread
  | inline field properties => inline field.reread (rereadAll properties)

def rereadAll : List Property → List Property
  | [] => []
  | property :: others => reread property :: rereadAll others

end

end Property

namespace Entity

def reread : Entity → Entity
  | comment text => comment (rereadLine text.toList)
  | enumeration declared =>
    enumeration { declared with description := declared.description.map rereadDescription }
  | dataType declared =>
    dataType { declared with
      description := declared.description.map rereadDescription
      properties := Property.rereadAll declared.properties }
  | method declared =>
    method { declared with description := declared.description.map rereadDescription }

/-- The last entity is trimmed instead if it is a comment. -/
def rereadAll : List Entity → List Entity
  | [] => []
  | [comment text] => [comment (String.ofList (trimEnd text.toList))]
  | entity :: others => entity.reread :: rereadAll others

end Entity

mutual

theorem Property.isWellFormed_reread : (property : Property) →
    property.reread.isWellFormed = property.isWellFormed
  | .plain field => rfl
  | .inline field properties => by
    have body := Property.areWellFormed_rereadAll properties
    rw [reread, isWellFormed, isWellFormed, body]
    rfl

theorem Property.areWellFormed_rereadAll : (properties : List Property) →
    areWellFormed (rereadAll properties) = areWellFormed properties
  | [] => rfl
  | property :: others => by
    rw [rereadAll, areWellFormed, areWellFormed, Property.isWellFormed_reread property,
      Property.areWellFormed_rereadAll others]

end

theorem Entity.isWellFormed_reread {entity : Entity} (valid : entity.isWellFormed = true) :
    entity.reread.isWellFormed = true := by
  cases entity with
  | comment text =>
    rw [reread, rereadLine, isWellFormed_comment_iff, String.toList_ofList]
    exact fun member => isWellFormed_comment_iff.mp valid (mem_of_mem_dropCarriageReturn member)
  | enumeration declared => exact valid
  | dataType declared =>
    rw [isWellFormed] at valid
    rwa [reread, isWellFormed, Property.areWellFormed_rereadAll]
  | method declared => exact valid

/-!
## Entities that are read as they were
-/

/-- No line of a text ends in a carriage return. -/
def keepsLines (text : String) : Bool :=
  (text.toList.splitOn '\n').all fun line => line.getLast? ≠ some '\r'

namespace Property

mutual

def keepsLines : Property → Bool
  | plain field => field.description.all ApiDef.keepsLines
  | inline field properties => field.description.all ApiDef.keepsLines && keepAllLines properties

def keepAllLines : List Property → Bool
  | [] => true
  | property :: others => keepsLines property && keepAllLines others

end

end Property

namespace Entity

def keepsLines : Entity → Bool
  | comment text => text.toList.getLast? ≠ some '\r'
  | enumeration declared => declared.description.all ApiDef.keepsLines
  | dataType declared =>
    declared.description.all ApiDef.keepsLines && Property.keepAllLines declared.properties
  | method declared => declared.description.all ApiDef.keepsLines

/-- Entities that can be spelled, and of which the layout loses nothing. -/
structure AreWellFormed (entities : List Entity) : Prop where
  spelled : ∀ entity ∈ entities, entity.isWellFormed = true
  keepLines : ∀ entity ∈ entities, entity.keepsLines = true
  noBlankAtEnd : ∀ text c, entities.getLast? = some (comment text) →
    text.toList.getLast? = some c → isBlank c = false

end Entity

theorem rereadLine_eq {line : List Char} (keeps : line.getLast? ≠ some '\r') :
    rereadLine line = String.ofList line := by
  rw [rereadLine, dropCarriageReturn_of_getLast?_ne keeps]

theorem rereadDescription_eq {text : String} (keeps : keepsLines text = true) :
    rereadDescription text = text := by
  have same : (text.toList.splitOn '\n').map rereadLine = (text.toList.splitOn '\n').map String.ofList := by
    refine List.map_congr_left fun line member => rereadLine_eq ?_
    simpa using List.all_eq_true.mp keeps line member
  have plain : String.toList ∘ String.ofList = id := funext fun _ => String.toList_ofList
  rw [rereadDescription, same, ← String.toList_inj, String.toList_intercalate, List.map_map, plain,
    List.map_id]
  exact List.intercalate_splitOn '\n'

theorem map_rereadDescription_eq {description : Option String}
    (keeps : description.all keepsLines = true) : description.map rereadDescription = description := by
  cases description with
  | none => rfl
  | some text => rw [Option.map_some, rereadDescription_eq keeps]

theorem Field.reread_eq {field : Field} (keeps : field.description.all keepsLines = true) :
    field.reread = field := by
  rw [reread, map_rereadDescription_eq keeps]

mutual

theorem Property.reread_eq : (property : Property) → property.keepsLines = true →
    property.reread = property
  | .plain field, keeps => by rw [reread, Field.reread_eq keeps]
  | .inline field properties, keeps => by
    obtain ⟨keepsField, keepsAll⟩ := Bool.and_eq_true_iff.mp keeps
    rw [reread, Field.reread_eq keepsField, Property.rereadAll_eq properties keepsAll]

theorem Property.rereadAll_eq : (properties : List Property) → keepAllLines properties = true →
    rereadAll properties = properties
  | [], _ => rfl
  | property :: others, keeps => by
    obtain ⟨keepsFirst, keepsOthers⟩ := Bool.and_eq_true_iff.mp keeps
    rw [rereadAll, Property.reread_eq property keepsFirst, Property.rereadAll_eq others keepsOthers]

end

theorem Entity.reread_eq {entity : Entity} (keeps : entity.keepsLines = true) :
    entity.reread = entity := by
  cases entity with
  | comment text =>
    have last : text.toList.getLast? ≠ some '\r' := by simpa [keepsLines] using keeps
    rw [reread, rereadLine_eq last, String.ofList_toList]
  | enumeration declared => rw [reread, map_rereadDescription_eq keeps]
  | dataType declared =>
    obtain ⟨keepsOwn, keepsAll⟩ := Bool.and_eq_true_iff.mp keeps
    rw [reread, map_rereadDescription_eq keepsOwn, Property.rereadAll_eq _ keepsAll]
  | method declared => rw [reread, map_rereadDescription_eq keeps]

theorem trimEnd_eq {text : List Char} (solid : ∀ c, text.getLast? = some c → isBlank c = false) :
    trimEnd text = text := by
  have stops : Stops isBlank text.reverse := by
    intro c others same
    refine solid c ?_
    rw [List.getLast?_eq_head?_reverse, same, List.head?_cons]
  have kept : text.reverse.dropWhile isBlank = text.reverse := dropWhile_of_stops blank_nil stops
  rw [trimEnd, kept, List.reverse_reverse]

theorem Entity.rereadAll_eq {entities : List Entity} (wellFormed : AreWellFormed entities) :
    rereadAll entities = entities := by
  obtain ⟨-, keepLines, noBlankAtEnd⟩ := wellFormed
  fun_induction rereadAll entities with
  | case1 => rfl
  | case2 text => rw [trimEnd_eq (noBlankAtEnd text · rfl), String.ofList_toList]
  | case3 entity others notLast ih =>
    obtain ⟨keepsFirst, keepOthers⟩ := List.forall_mem_cons.mp keepLines
    have lastOfOthers : ∀ text c, others.getLast? = some (comment text) →
        text.toList.getLast? = some c → isBlank c = false := by
      intro text c last
      refine noBlankAtEnd text c ?_
      rw [List.getLast?_cons, last, Option.getD_some]
    rw [reread_eq keepsFirst, ih keepOthers lastOfOthers]

end ApiDef
