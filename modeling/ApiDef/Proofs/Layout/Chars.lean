import ApiDef.Proofs.Model.Reread
import ApiDef.Proofs.Reader.Words
set_option autoImplicit false

/-!
# The characters of the layout

What the layout writes, as runs of characters in the order in which a reader meets them. A margin in
front of every line is a margin behind every line feed, and one in front of the whole.
-/

namespace ApiDef

open Text

namespace Indentation

theorem mem_margin {indentation : Indentation} {depth : Nat} {c : Char}
    (member : c ∈ (indentation.margin depth).toList) : c = '\t' ∨ c = ' ' := by
  have inUnit : c ∈ indentation.unit.toList := by
    rw [margin, String.toList_join] at member
    obtain ⟨level, levelMember, member⟩ := List.mem_flatMap.mp member
    rwa [← List.eq_of_mem_replicate levelMember]
  cases indentation with
  | tab => exact .inl (by simpa [unit] using inUnit)
  | spaces count =>
    rw [unit, String.toList_ofList] at inUnit
    exact .inr (List.eq_of_mem_replicate inUnit)

theorem isBlank_margin {indentation : Indentation} {depth : Nat} :
    ∀ c ∈ (indentation.margin depth).toList, isBlank c = true := by
  intro c member
  rcases mem_margin member with rfl | rfl <;> decide

theorem not_mem_margin {indentation : Indentation} {depth : Nat} :
    '\n' ∉ (indentation.margin depth).toList := by
  intro member
  rcases mem_margin member with same | same <;> cases same

theorem margin_one (indentation : Indentation) : indentation.margin 1 = indentation.unit := by
  simp [margin]

end Indentation

namespace Layout

theorem flatMap_margin {ι : Type} (margin : List Char) (text : ι → List Char) (items : List ι) :
    items.flatMap (fun x => margin ++ (text x ++ ['\n'])) ++ margin
      = margin ++ items.flatMap fun x => text x ++ '\n' :: margin := by
  induction items with
  | nil => simp
  | cons first others ih =>
    rw [List.flatMap_cons, List.append_assoc, ih, List.flatMap_cons]
    simp

/-- The description and the tags of a construct, with the margin behind each of their lines. -/
def above (margin : List Char) (description : Option String) (tags : List Tag) : List Char :=
  (descriptionLines description).flatMap (fun line => '/' :: '/' :: (line ++ '\n' :: margin))
    ++ tags.flatMap fun tag => tag.text.toList ++ '\n' :: margin

theorem toList_preamble (margin : String) (description : Option String) (tags : List Tag) :
    (preamble margin description tags).toList ++ margin.toList
      = margin.toList ++ above margin.toList description tags := by
  have lineTexts : (String.join ((description.map lines).getD [] |>.map fun line =>
        margin ++ "//" ++ line ++ "\n")).toList
      = (descriptionLines description).flatMap fun line =>
        margin.toList ++ ('/' :: '/' :: line ++ ['\n']) := by
    cases description with
    | none => simp [descriptionLines]
    | some text => simp [descriptionLines, lines, String.toList_join, List.flatMap_map]
  have tagTexts : (String.join (tags.map fun tag => margin ++ tag.text ++ "\n")).toList
      = tags.flatMap fun tag => margin.toList ++ (tag.text.toList ++ ['\n']) := by
    simp [String.toList_join, List.flatMap_map]
  rw [preamble, String.toList_append, lineTexts, tagTexts, List.append_assoc, flatMap_margin,
    ← List.append_assoc, flatMap_margin, above, List.append_assoc]
  rfl

/-!
## Bodies
-/

/-- A body behind its opening brace, up to and including the closing one. -/
def bodyText (indentation : Indentation) (depth : Nat) : List Property → List Char
  | [] => ['}']
  | first :: others =>
    '\n' :: ((properties indentation (depth + 1) (first :: others)).toList
      ++ ((indentation.margin depth).toList ++ ['}']))

def shapeText (indentation : Indentation) (depth : Nat) : Property → List Char
  | .plain field => field.type.text.toList
  | .inline field members =>
    if field.type.isList then '[' :: '{' :: (bodyText indentation depth members ++ [']'])
    else '{' :: bodyText indentation depth members

theorem toList_defaultText_some (value : String) :
    (defaultText (some value)).toList = ' ' :: '=' :: ' ' :: value.toList := by
  rw [defaultText, String.toList_append]
  rfl

/-- A property behind the margin of its first line. -/
def memberText (indentation : Indentation) (depth : Nat) (member : Property) : List Char :=
  above (indentation.margin depth).toList member.field.description member.field.tags
    ++ (member.field.name.toList ++ ':' :: ' ' :: (shapeText indentation depth member
      ++ (defaultText member.field.defaultValue).toList))

/-- The parts of a property in the order in which they are read. -/
theorem memberText_append (indentation : Indentation) (depth : Nat) (member : Property)
    (tail : List Char) :
    memberText indentation depth member ++ tail
      = (descriptionLines member.field.description).flatMap
          (fun line => '/' :: '/' :: (line ++ '\n' :: (indentation.margin depth).toList))
        ++ (member.field.tags.flatMap
            (fun tag => tag.text.toList ++ '\n' :: (indentation.margin depth).toList)
          ++ (member.field.name.toList ++ ':' :: ' ' :: (shapeText indentation depth member
            ++ ((defaultText member.field.defaultValue).toList ++ tail)))) := by
  simp [memberText, above]

theorem toList_property (indentation : Indentation) (depth : Nat) (member : Property) :
    (property indentation depth member).toList
      = (indentation.margin depth).toList ++ memberText indentation depth member := by
  cases member with
  | plain field =>
    simp only [property, String.toList_append, toList_preamble]
    simp [memberText, shapeText, Property.field]
  | inline field members =>
    cases members with
    | nil =>
      simp only [property, String.toList_append, toList_preamble]
      cases isList : field.type.isList <;>
        simp [memberText, shapeText, bodyText, Property.field, isList]
    | cons first others =>
      simp only [property, String.toList_append, toList_preamble]
      cases isList : field.type.isList <;>
        simp [memberText, shapeText, bodyText, Property.field, isList, properties]

/-- Members with the margin in front of each of their lines. -/
def membersText (indentation : Indentation) (depth : Nat) (members : List Property) : List Char :=
  members.flatMap fun member =>
    (indentation.margin depth).toList ++ (memberText indentation depth member ++ ['\n'])

theorem toList_properties (indentation : Indentation) (depth : Nat) (members : List Property) :
    (properties indentation depth members).toList = membersText indentation depth members := by
  rw [membersText]
  induction members with
  | nil => rfl
  | cons member others ih =>
    rw [properties, String.toList_append, String.toList_append, toList_property, ih,
      List.flatMap_cons, List.append_assoc, List.append_assoc, List.append_assoc, List.append_assoc]
    rfl

/-!
## Blocks
-/

/-- The values of an enumeration behind the opening brace, up to and including the closing one. -/
def valuesText (indentation : Indentation) : List String → List Char
  | [] => ['}']
  | first :: others =>
    '\n' :: (indentation.unit.toList ++ (first.toList
      ++ (others.flatMap (fun value => ',' :: '\n' :: (indentation.unit.toList ++ value.toList))
        ++ ['\n', '}'])))

theorem toList_values_cons (indentation : Indentation) (first : String) (others : List String) :
    (values indentation (first :: others)).toList = indentation.unit.toList ++ (first.toList
      ++ (others.flatMap (fun value => ',' :: '\n' :: (indentation.unit.toList ++ value.toList))
        ++ ['\n'])) := by
  induction others generalizing first with
  | nil => simp [values]
  | cons second others ih => simp [values, ih]

theorem toList_enumeration (indentation : Indentation) (declared : Enumeration) :
    (enumeration indentation declared).toList = above [] declared.description declared.tags
      ++ ("enum".toList ++ ' ' :: (declared.name.toList
        ++ ' ' :: '{' :: valuesText indentation declared.values)) := by
  have start := toList_preamble "" declared.description declared.tags
  simp only [String.toList_empty, List.append_nil, List.nil_append] at start
  cases values : declared.values with
  | nil => simp [enumeration, start, values, valuesText]
  | cons first others =>
    simp [enumeration, start, values, valuesText, toList_values_cons]

theorem toList_dataType (indentation : Indentation) (declared : DataType) :
    (dataType indentation declared).toList = above [] declared.description declared.tags
      ++ (declared.name.toList ++ ' ' :: '{' :: bodyText indentation 0 declared.properties) := by
  have start := toList_preamble "" declared.description declared.tags
  simp only [String.toList_empty, List.append_nil, List.nil_append] at start
  cases members : declared.properties with
  | nil => simp [dataType, body, start, members, bodyText]
  | cons first others =>
    simp [dataType, body, start, members, bodyText, Indentation.margin]

/-- The parameters of a method behind the opening parenthesis. -/
def parametersText : List Parameter → List Char
  | [] => []
  | first :: others =>
    first.text.toList ++ others.flatMap fun parameter => ',' :: ' ' :: parameter.text.toList

theorem toList_method (declared : Method) :
    (method declared).toList = above [] declared.description declared.tags
      ++ (declared.name.toList ++ '(' :: (parametersText declared.parameters
        ++ ')' :: ':' :: declared.returnType.text.toList)) := by
  have start := toList_preamble "" declared.description declared.tags
  simp only [String.toList_empty, List.append_nil, List.nil_append] at start
  cases parameters : declared.parameters with
  | nil => simp [method, start, parameters, parametersText]
  | cons first others =>
    simp [method, start, parameters, parametersText, String.toList_intercalate,
      Reader.intercalate_cons, List.flatMap_map]

/-- A declaration behind its description and its tags. -/
def declarationText (indentation : Indentation) : Entity → List Char
  | .comment _ => []
  | .enumeration declared =>
    "enum".toList ++ ' ' :: (declared.name.toList
      ++ ' ' :: '{' :: valuesText indentation declared.values)
  | .dataType declared =>
    declared.name.toList ++ ' ' :: '{' :: bodyText indentation 0 declared.properties
  | .method declared =>
    declared.name.toList ++ '(' :: (parametersText declared.parameters
      ++ ')' :: ':' :: declared.returnType.text.toList)

theorem toList_comment (indentation : Indentation) (text : String) :
    (block indentation (.comment text)).toList = '#' :: text.toList := by
  rw [block, String.toList_append]
  rfl

theorem toList_block {entity : Entity} (notComment : entity.isComment = false)
    (indentation : Indentation) :
    (block indentation entity).toList
      = above [] entity.description? entity.tags ++ declarationText indentation entity := by
  cases entity with
  | comment text => cases notComment
  | enumeration declared => exact toList_enumeration indentation declared
  | dataType declared => exact toList_dataType indentation declared
  | method declared => exact toList_method declared

end Layout

theorem Parameter.toList_text (parameter : Parameter) :
    parameter.text.toList = parameter.tags.flatMap (fun tag => tag.text.toList ++ [' '])
      ++ (parameter.name.toList ++ ':' :: parameter.type.text.toList) := by
  simp [text, String.toList_join, List.flatMap_map]

end ApiDef
