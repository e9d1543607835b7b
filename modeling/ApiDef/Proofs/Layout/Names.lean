import ApiDef.Proofs.Check.Walk
import ApiDef.Proofs.Layout.Trim
import ApiDef.Proofs.Token.Names
set_option autoImplicit false

/-!
# The names in the layout

The tokens of a text in canonical layout declare the data types and enumerations that were written,
although no token is looked at in more than its closest neighbourhood. Only the reserved word as the
name of a type or an enumeration could make a name of what follows it.
-/

namespace ApiDef

open Text Token

/-!
## Lists
-/

section

variable {ι : Type} {text : ι → List Char} {items : List ι} {rest : List Char}

theorem endsMark_separated (gap : List Char) (ends : EndsMark rest) :
    EndsMark (items.flatMap (fun x => ',' :: (gap ++ text x)) ++ rest) := by
  cases items with
  | nil => exact ends
  | cons first others => exact endsMark_cons (by decide) _

theorem namesIn_separated {gap : List Char} (gapBlank : ∀ c ∈ gap, isBlank c = true)
    (each : ∀ x ∈ items, ∀ tail, EndsMark tail → namesIn (text x ++ tail) = namesIn tail)
    (ends : EndsMark rest) :
    namesIn (items.flatMap (fun x => ',' :: (gap ++ text x)) ++ rest) = namesIn rest := by
  induction items with
  | nil => rfl
  | cons first others ih =>
    obtain ⟨here, there⟩ := List.forall_mem_cons.mp each
    rw [List.flatMap_cons, List.append_assoc, List.cons_append, namesIn_mark (by decide),
      List.append_assoc, namesIn_blanks gapBlank, here _ (endsMark_separated gap ends), ih there]

theorem namesIn_bracketed {opening closing : Char} (opens : isMark opening = true)
    (closes : isMark closing = true ∧ closing ≠ '{')
    (each : ∀ x ∈ items, ∀ tail, EndsMark tail → namesIn (text x ++ tail) = namesIn tail)
    (tail : List Char) :
    namesIn (Reader.bracketed opening closing text items ++ tail) = namesIn tail := by
  cases items with
  | nil => rfl
  | cons first others =>
    obtain ⟨here, there⟩ := List.forall_mem_cons.mp each
    have close : EndsMark (closing :: tail) := endsMark_cons closes tail
    have whole : Reader.bracketed opening closing text (first :: others) ++ tail
        = opening :: (text first
          ++ (others.flatMap (fun x => ',' :: ([' '] ++ text x)) ++ closing :: tail)) := by
      simp [Reader.bracketed]
    rw [whole, namesIn_mark opens, here _ (endsMark_separated [' '] close),
      namesIn_separated blank_space there close, namesIn_mark closes.1]

end

/-!
## Types
-/

theorem namesIn_listMark (isList : Bool) (tail : List Char) :
    namesIn ((TypeRef.listMark isList).toList ++ tail) = namesIn tail := by
  cases isList with
  | false => rfl
  | true =>
    change namesIn ('[' :: ']' :: tail) = namesIn tail
    rw [namesIn_mark (by decide), namesIn_mark (by decide)]

theorem endsName_typeArguments (generics : List TypeRef) (isList : Bool) {tail : List Char}
    (ends : EndsName tail) :
    EndsName (Reader.bracketed '<' '>' (fun type => type.text.toList) generics
      ++ ((TypeRef.listMark isList).toList ++ tail)) := by
  cases generics with
  | cons first others => exact (endsMark_cons (by decide) _).endsName
  | nil =>
    cases isList with
    | true => exact (endsMark_cons (by decide) _).endsName
    | false => exact ends

mutual

theorem TypeRef.namesIn_text : (type : TypeRef) → type.isWellFormed = true →
    (∀ node ∈ type.nodes, node.name ≠ reservedWord) → ∀ tail, EndsName tail →
    namesIn (type.text.toList ++ tail) = namesIn tail
  | .mk name isList generics, valid, unreserved, tail, ends => by
    obtain ⟨validName, validGenerics⟩ := Bool.and_eq_true_iff.mp valid
    obtain ⟨here, inside⟩ := List.forall_mem_cons.mp unreserved
    have opens : isMark '<' = true := by decide
    have closes : isMark '>' = true ∧ '>' ≠ '{' := by decide
    have arguments := namesIn_bracketed opens closes
      (TypeRef.namesIn_texts generics validGenerics inside)
    rw [TypeRef.toList_text, List.append_assoc, List.append_assoc,
      namesIn_identifier validName here (endsName_typeArguments generics isList ends), arguments,
      namesIn_listMark]

theorem TypeRef.namesIn_texts : (types : List TypeRef) → TypeRef.areWellFormed types = true →
    (∀ node ∈ TypeRef.nodesOfAll types, node.name ≠ reservedWord) →
    ∀ type ∈ types, ∀ tail, EndsMark tail → namesIn (type.text.toList ++ tail) = namesIn tail
  | [], _, _ => List.forall_mem_nil _
  | type :: others, valid, unreserved => by
    obtain ⟨here, there⟩ := Bool.and_eq_true_iff.mp valid
    obtain ⟨inside, behind⟩ := List.forall_mem_append.mp unreserved
    exact List.forall_mem_cons.mpr
      ⟨fun tail ends => TypeRef.namesIn_text type here inside tail ends.endsName,
        TypeRef.namesIn_texts others there behind⟩

end

/-!
## Tags and what stands above
-/

theorem namesIn_quote_text (value : String) {tail : List Char} (ends : EndsName tail) :
    namesIn ((quote value).toList ++ tail) = namesIn tail :=
  namesIn_literal (Literal.scan_quote value tail) ends

theorem namesIn_tagItem {item : Reader.TagItem} (valid : item.isWellFormed = true) {tail : List Char}
    (ends : EndsName tail) : namesIn (item.text ++ tail) = namesIn tail := by
  cases item with
  | argument value => exact namesIn_quote_text value ends
  | option key value =>
    have assigned : EndsMark (' ' :: '=' :: ' ' :: ((quote value).toList ++ tail)) :=
      ⟨[' '], '=', _, rfl, blank_space, by decide, by decide⟩
    have whole : (Reader.TagItem.option key value).text ++ tail
        = key.toList ++ ' ' :: '=' :: ' ' :: ((quote value).toList ++ tail) := by
      simp [Reader.TagItem.text]
    rw [whole, namesIn_markedIdentifier valid assigned, namesIn_blank (by decide),
      namesIn_mark (by decide), namesIn_blank (by decide), namesIn_quote_text value ends]

theorem namesIn_tag_text {tag : Tag} (valid : tag.isWellFormed = true) {tail : List Char}
    (stops : Stops isIdentifierChar tail) : namesIn (tag.text.toList ++ tail) = namesIn tail := by
  obtain ⟨name, same, validName⟩ := Reader.exists_of_tag valid
  obtain ⟨first, others, -, -, inside⟩ := exists_of_isIdentifier validName
  have opens : isMark '(' = true := by decide
  have closes : isMark ')' = true ∧ ')' ≠ '{' := by decide
  have behindName := Reader.stops_bracketed (show isIdentifierChar '(' = false by decide) ')'
    Reader.TagItem.text tag.items stops
  rw [Reader.tagText_eq same, namesIn_tag, dropWhile_of_stops inside behindName,
    namesIn_bracketed opens closes]
  exact fun item member tail ends =>
    namesIn_tagItem (Tag.items_isWellFormed valid item member) ends.endsName

theorem namesIn_tags {tags : List Tag} (valid : ∀ tag ∈ tags, tag.isWellFormed = true) {gap : List Char}
    (nonempty : gap ≠ []) (gapBlank : ∀ c ∈ gap, isBlank c = true) (tail : List Char) :
    namesIn (tags.flatMap (fun tag => tag.text.toList ++ gap) ++ tail) = namesIn tail := by
  induction tags with
  | nil => rfl
  | cons tag others ih =>
    obtain ⟨here, there⟩ := List.forall_mem_cons.mp valid
    rw [List.flatMap_cons, List.append_assoc, List.append_assoc,
      namesIn_tag_text here (Reader.stops_blanks nonempty gapBlank _), namesIn_blanks gapBlank,
      ih there]

namespace Layout

theorem namesIn_descriptionLines {margin : List Char} (marginBlank : ∀ c ∈ margin, isBlank c = true)
    {lines : List (List Char)} (oneLine : ∀ line ∈ lines, '\n' ∉ line) (tail : List Char) :
    namesIn (lines.flatMap (fun line => '/' :: '/' :: (line ++ '\n' :: margin)) ++ tail)
      = namesIn tail := by
  induction lines with
  | nil => rfl
  | cons line others ih =>
    obtain ⟨here, there⟩ := List.forall_mem_cons.mp oneLine
    have whole : ((line :: others).flatMap fun line => '/' :: '/' :: (line ++ '\n' :: margin)) ++ tail
        = ('/' :: '/' :: line) ++ '\n' :: (margin
          ++ (others.flatMap (fun line => '/' :: '/' :: (line ++ '\n' :: margin)) ++ tail)) := by
      simp
    have commentLine : '\n' ∉ '/' :: '/' :: line := by simpa using here
    rw [whole, namesIn_commentLine rfl commentLine (stops_cons (by decide) _),
      namesIn_blank isBlank_lineFeed, namesIn_blanks marginBlank, ih there]

theorem namesIn_above {margin : List Char} (marginBlank : ∀ c ∈ margin, isBlank c = true)
    (description : Option String) {tags : List Tag} (valid : ∀ tag ∈ tags, tag.isWellFormed = true)
    (tail : List Char) : namesIn (above margin description tags ++ tail) = namesIn tail := by
  have gapBlank : ∀ c ∈ '\n' :: margin, isBlank c = true :=
    List.forall_mem_cons.mpr ⟨isBlank_lineFeed, marginBlank⟩
  rw [above, List.append_assoc,
    namesIn_descriptionLines marginBlank fun line member => not_mem_descriptionLines member]
  exact namesIn_tags valid (List.cons_ne_nil _ _) gapBlank tail

/-!
## Bodies
-/

variable {indentation : Indentation} {depth : Nat}

theorem namesIn_defaultText {defaultValue : Option String} (valid : defaultValue.all isLiteral = true)
    {tail : List Char} (delimits : Delimits tail) (ends : EndsName tail) :
    namesIn ((defaultText defaultValue).toList ++ tail) = namesIn tail := by
  cases defaultValue with
  | none => rfl
  | some value =>
    obtain ⟨literal, found⟩ := Reader.exists_scan_of_isLiteral valid delimits
    have whole : (defaultText (some value)).toList ++ tail
        = ' ' :: '=' :: ' ' :: (value.toList ++ tail) := by
      rw [toList_defaultText_some]
      rfl
    rw [whole, namesIn_blank (by decide), namesIn_mark (by decide), namesIn_blank (by decide),
      namesIn_literal found ends]

theorem endsName_defaultText (defaultValue : Option String) {tail : List Char} (ends : EndsName tail) :
    EndsName ((defaultText defaultValue).toList ++ tail) := by
  cases defaultValue with
  | none => exact ends
  | some value =>
    rw [toList_defaultText_some]
    exact EndsMark.endsName ⟨[' '], '=', _, rfl, blank_space, by decide, by decide⟩

theorem endsName_membersText (indentation : Indentation) (depth : Nat) {members : List Property}
    (valid : Property.areWellFormed members = true) {outer : List Char}
    (outerBlank : ∀ c ∈ outer, isBlank c = true) (tail : List Char) :
    EndsName ('\n' :: (membersText indentation depth members ++ (outer ++ '}' :: tail))) := by
  obtain ⟨c, others, same, starts⟩ :=
    Reader.exists_of_membersText indentation depth valid outerBlank tail
  refine ⟨stops_cons (by decide) _, ?_⟩
  rw [same]
  apply Reader.head?_cons_ne
  rintro rfl
  exact absurd starts (by decide)

theorem namesIn_memberText {member : Property} (valid : member.isWellFormed = true)
    (shape : ∀ tail, EndsName tail →
      namesIn (shapeText indentation depth member ++ tail) = namesIn tail)
    {tail : List Char} (delimits : Delimits tail) (ends : EndsName tail) :
    namesIn (memberText indentation depth member ++ tail) = namesIn tail := by
  obtain ⟨validName, validTags, validDefault⟩ := member.isWellFormed_field valid
  have colon : isMark ':' = true ∧ ':' ≠ '{' := by decide
  have whole : memberText indentation depth member ++ tail
      = above (indentation.margin depth).toList member.field.description member.field.tags
        ++ (member.field.name.toList ++ ':' :: ' ' :: (shapeText indentation depth member
          ++ ((defaultText member.field.defaultValue).toList ++ tail))) := by
    simp [memberText]
  rw [whole, namesIn_above Indentation.isBlank_margin _ validTags,
    namesIn_markedIdentifier validName (endsMark_cons colon _), namesIn_mark colon.1,
    namesIn_blank (by decide), shape _ (endsName_defaultText _ ends),
    namesIn_defaultText validDefault delimits ends]

theorem namesIn_bodyText {members : List Property}
    (inside : ∀ outer, (∀ c ∈ outer, isBlank c = true) → ∀ tail,
      namesIn (membersText indentation (depth + 1) members ++ (outer ++ '}' :: tail)) = namesIn tail)
    (tail : List Char) : namesIn (bodyText indentation depth members ++ tail) = namesIn tail := by
  cases members with
  | nil => exact namesIn_mark (by decide) tail
  | cons first others =>
    have whole : bodyText indentation depth (first :: others) ++ tail
        = '\n' :: (membersText indentation (depth + 1) (first :: others)
          ++ ((indentation.margin depth).toList ++ '}' :: tail)) := by
      rw [bodyText, toList_properties]
      simp
    rw [whole, namesIn_blank isBlank_lineFeed, inside _ Indentation.isBlank_margin]

mutual

theorem namesIn_shapeText (depth : Nat) : (member : Property) → member.isWellFormed = true →
    (∀ found ∈ member.preorder, ∀ node ∈ found.field.type.nodes, node.name ≠ reservedWord) →
    ∀ tail, EndsName tail → namesIn (shapeText indentation depth member ++ tail) = namesIn tail
  | .plain field, valid, unreserved, tail, ends => by
    simp only [Property.isWellFormed, Field.isWellFormed, Bool.and_eq_true] at valid
    exact field.type.namesIn_text valid.1.1.2 (unreserved _ List.mem_cons_self) tail ends
  | .inline field members, valid, unreserved, tail, ends => by
    rw [Property.isWellFormed, Bool.and_eq_true] at valid
    have body := namesIn_bodyText (namesIn_membersText (depth + 1) members valid.2
      fun found member => unreserved found (List.mem_cons_of_mem _ member))
    rw [shapeText]
    split
    · rw [List.cons_append, namesIn_mark (by decide), List.cons_append, namesIn_mark (by decide),
        List.append_assoc, body]
      exact namesIn_mark (by decide) tail
    · rw [List.cons_append, namesIn_mark (by decide), body]

theorem namesIn_membersText (depth : Nat) : (members : List Property) →
    Property.areWellFormed members = true →
    (∀ found ∈ Property.preorderOfAll members, ∀ node ∈ found.field.type.nodes,
      node.name ≠ reservedWord) →
    ∀ outer, (∀ c ∈ outer, isBlank c = true) → ∀ tail,
      namesIn (membersText indentation depth members ++ (outer ++ '}' :: tail)) = namesIn tail
  | [], _, _, outer, outerBlank, tail => by
    rw [membersText, List.flatMap_nil, List.nil_append, namesIn_blanks outerBlank]
    exact namesIn_mark (by decide) tail
  | member :: others, valid, unreserved, outer, outerBlank, tail => by
    obtain ⟨here, there⟩ := Bool.and_eq_true_iff.mp valid
    obtain ⟨inside, behind⟩ := List.forall_mem_append.mp unreserved
    have shape := namesIn_shapeText depth member here inside
    have ends := endsName_membersText indentation depth there outerBlank tail
    have whole : membersText indentation depth (member :: others) ++ (outer ++ '}' :: tail)
        = (indentation.margin depth).toList ++ (memberText indentation depth member
          ++ '\n' :: (membersText indentation depth others ++ (outer ++ '}' :: tail))) := by
      simp [membersText]
    rw [whole, namesIn_blanks Indentation.isBlank_margin,
      namesIn_memberText here shape (delimits_cons (by decide) (by decide)) ends,
      namesIn_blank isBlank_lineFeed, namesIn_membersText depth others there behind outer outerBlank tail]

end

/-!
## Declarations
-/

theorem namesIn_valuesText {values : List String} (valid : ∀ value ∈ values, isIdentifier value = true)
    (tail : List Char) : namesIn (valuesText indentation values ++ tail) = namesIn tail := by
  cases values with
  | nil => exact namesIn_mark (by decide) tail
  | cons first others =>
    obtain ⟨validFirst, validOthers⟩ := List.forall_mem_cons.mp valid
    have gapBlank : ∀ c ∈ '\n' :: indentation.unit.toList, isBlank c = true :=
      List.forall_mem_cons.mpr ⟨isBlank_lineFeed, Reader.isBlank_unit⟩
    have close : EndsMark ('\n' :: '}' :: tail) :=
      ⟨['\n'], '}', tail, rfl, blank_lineFeed, by decide, by decide⟩
    have whole : valuesText indentation (first :: others) ++ tail
        = ('\n' :: indentation.unit.toList) ++ (first.toList
          ++ (others.flatMap (fun value => ',' :: (('\n' :: indentation.unit.toList) ++ value.toList))
            ++ '\n' :: '}' :: tail)) := by
      simp [valuesText]
    rw [whole, namesIn_blanks gapBlank,
      namesIn_markedIdentifier validFirst (endsMark_separated _ close), namesIn_separated gapBlank _ close,
      namesIn_blank isBlank_lineFeed, namesIn_mark (by decide)]
    exact fun value member tail ends => namesIn_markedIdentifier (validOthers value member) ends

theorem namesIn_parameter {parameter : Parameter} (valid : parameter.isWellFormed = true)
    (unreserved : ∀ node ∈ parameter.type.nodes, node.name ≠ reservedWord) {tail : List Char}
    (ends : EndsName tail) : namesIn (parameter.text.toList ++ tail) = namesIn tail := by
  simp only [Parameter.isWellFormed, Bool.and_eq_true, List.all_eq_true] at valid
  obtain ⟨⟨validName, validType⟩, validTags⟩ := valid
  have colon : isMark ':' = true ∧ ':' ≠ '{' := by decide
  rw [Parameter.toList_text, List.append_assoc, List.append_assoc,
    namesIn_tags validTags (List.cons_ne_nil _ _) blank_space, List.cons_append,
    namesIn_markedIdentifier validName (endsMark_cons colon _), namesIn_mark colon.1,
    parameter.type.namesIn_text validType unreserved tail ends]

theorem namesIn_parametersText {parameters : List Parameter}
    (valid : ∀ parameter ∈ parameters, parameter.isWellFormed = true)
    (unreserved : ∀ parameter ∈ parameters, ∀ node ∈ parameter.type.nodes, node.name ≠ reservedWord)
    {tail : List Char} (ends : EndsMark tail) :
    namesIn (parametersText parameters ++ tail) = namesIn tail := by
  cases parameters with
  | nil => rfl
  | cons first others =>
    obtain ⟨validFirst, validOthers⟩ := List.forall_mem_cons.mp valid
    obtain ⟨unreservedFirst, unreservedOthers⟩ := List.forall_mem_cons.mp unreserved
    have whole : parametersText (first :: others) ++ tail = first.text.toList
        ++ (others.flatMap (fun parameter => ',' :: ([' '] ++ parameter.text.toList)) ++ tail) := by
      simp [parametersText]
    rw [whole, namesIn_parameter validFirst unreservedFirst (endsMark_separated _ ends).endsName,
      namesIn_separated blank_space _ ends]
    exact fun parameter member tail ends =>
      namesIn_parameter (validOthers parameter member) (unreservedOthers parameter member) ends.endsName

end Layout

namespace Entity

/-- The name of a data type or an enumeration. -/
def declaredType? : Entity → Option String
  | comment _ => none
  | enumeration declared => some declared.name
  | dataType declared => some declared.name
  | method _ => none

/-- The types that an entity refers to, at any depth. -/
def typeNodes : Entity → List TypeRef
  | comment _ => []
  | enumeration _ => []
  | dataType declared =>
    (Property.preorderOfAll declared.properties).flatMap fun property => property.field.type.nodes
  | method declared =>
    declared.parameters.flatMap (fun parameter => parameter.type.nodes) ++ declared.returnType.nodes

/-- No type that is declared or referred to has the reserved word for its name. -/
structure SparesReservedWord (entity : Entity) : Prop where
  declares : entity.declaredType? ≠ some reservedWord
  refers : ∀ node ∈ entity.typeNodes, node.name ≠ reservedWord

instance : DecidablePred SparesReservedWord := fun entity =>
  decidable_of_iff
    (entity.declaredType? ≠ some reservedWord ∧ ∀ node ∈ entity.typeNodes, node.name ≠ reservedWord)
    ⟨fun ⟨declares, refers⟩ => ⟨declares, refers⟩, fun ⟨declares, refers⟩ => ⟨declares, refers⟩⟩

end Entity

namespace Layout

variable {indentation : Indentation}

theorem namesIn_declarationText {entity : Entity} (notComment : entity.isComment = false)
    (valid : entity.isWellFormed = true) (spares : entity.SparesReservedWord) {tail : List Char}
    (ends : EndsName tail) :
    namesIn (declarationText indentation entity ++ tail)
      = entity.declaredType?.toList ++ namesIn tail := by
  cases entity with
  | comment text => cases notComment
  | enumeration declared =>
    simp only [Entity.isWellFormed, Bool.and_eq_true, List.all_eq_true] at valid
    have whole : declarationText indentation (.enumeration declared) ++ tail
        = reservedWord.toList ++ ' ' :: (declared.name.toList
          ++ ' ' :: '{' :: (valuesText indentation declared.values ++ tail)) := by
      simp [declarationText, reservedWord]
    have unreserved : declared.name ≠ reservedWord := fun same =>
      spares.declares (congrArg some same)
    rw [whole, namesIn_enumeration valid.1.1 unreserved, namesIn_valuesText valid.2]
    rfl
  | dataType declared =>
    simp only [Entity.isWellFormed, Bool.and_eq_true, decide_eq_true_eq] at valid
    have inside : ∀ found ∈ Property.preorderOfAll declared.properties,
        ∀ node ∈ found.field.type.nodes, node.name ≠ reservedWord := fun found member node inside =>
      spares.refers node (List.mem_flatMap.mpr ⟨found, member, inside⟩)
    have whole : declarationText indentation (.dataType declared) ++ tail
        = declared.name.toList ++ ' ' :: '{' :: (bodyText indentation 0 declared.properties ++ tail) := by
      simp [declarationText]
    rw [whole, namesIn_dataType valid.1.1.1 valid.1.1.2,
      namesIn_bodyText (namesIn_membersText 1 declared.properties valid.2 inside)]
    rfl
  | method declared =>
    simp only [Entity.isWellFormed, Bool.and_eq_true, List.all_eq_true] at valid
    obtain ⟨inParameters, inResult⟩ := List.forall_mem_append.mp spares.refers
    have opens : isMark '(' = true ∧ '(' ≠ '{' := by decide
    have closes : isMark ')' = true ∧ ')' ≠ '{' := by decide
    have whole : declarationText indentation (.method declared) ++ tail
        = declared.name.toList ++ '(' :: (parametersText declared.parameters
          ++ ')' :: ':' :: (declared.returnType.text.toList ++ tail)) := by
      simp [declarationText]
    rw [whole, namesIn_markedIdentifier valid.1.1.1.1 (endsMark_cons opens _), namesIn_mark opens.1,
      namesIn_parametersText valid.1.2 _ (endsMark_cons closes _), namesIn_mark closes.1,
      namesIn_mark (by decide), declared.returnType.namesIn_text valid.2 inResult tail ends]
    · rfl
    · exact fun parameter member node inside =>
        inParameters node (List.mem_flatMap.mpr ⟨parameter, member, inside⟩)

/-!
## Blocks
-/

theorem namesIn_comment_block {text : String} (oneLine : '\n' ∉ text.toList) {tail : List Char}
    (stops : Stops (· ≠ '\n') tail) :
    namesIn ((block indentation (.comment text)).toList ++ tail) = namesIn tail := by
  have commentLine : '\n' ∉ '#' :: text.toList := by simpa using oneLine
  rw [toList_comment, namesIn_commentLine rfl commentLine stops]

theorem namesIn_block {entity : Entity} (valid : entity.isWellFormed = true)
    (spares : entity.SparesReservedWord) {tail : List Char} (ends : EndsName tail)
    (stops : Stops (· ≠ '\n') tail) :
    namesIn ((block indentation entity).toList ++ tail) = entity.declaredType?.toList ++ namesIn tail := by
  cases isComment : entity.isComment with
  | true =>
    obtain ⟨text, rfl⟩ := Reader.exists_of_isComment isComment
    exact namesIn_comment_block (Entity.isWellFormed_comment_iff.mp valid) stops
  | false =>
    rw [toList_block isComment, List.append_assoc,
      namesIn_above blank_nil _ (entity.isWellFormed_tags isComment valid),
      namesIn_declarationText isComment valid spares ends]

theorem endsName_blocksText {entities : List Entity}
    (valid : ∀ entity ∈ entities, entity.isWellFormed = true) :
    EndsName (Reader.blocksText indentation entities) := by
  refine ⟨Reader.stops_blocksText (by decide) indentation entities, ?_⟩
  cases entities with
  | nil => exact endsName_nil.noBody
  | cons entity others =>
    have validEntity := valid entity List.mem_cons_self
    obtain ⟨c, rest, same, starts⟩ := Reader.exists_of_block validEntity
      (Reader.blocksText indentation others)
    rw [Reader.trimStart_blocksText_cons validEntity, same]
    apply Reader.head?_cons_ne
    rintro rfl
    exact absurd starts (by decide)

theorem namesIn_blocksText {entities : List Entity}
    (valid : ∀ entity ∈ entities, entity.isWellFormed = true)
    (spares : ∀ entity ∈ entities, entity.SparesReservedWord) :
    namesIn (Reader.blocksText indentation entities) = entities.filterMap Entity.declaredType? := by
  induction entities with
  | nil => exact namesIn_nil
  | cons entity others ih =>
    obtain ⟨validEntity, validOthers⟩ := List.forall_mem_cons.mp valid
    obtain ⟨sparesEntity, sparesOthers⟩ := List.forall_mem_cons.mp spares
    rw [Reader.blocksText_cons, namesIn_blank isBlank_lineFeed, namesIn_blank isBlank_lineFeed,
      namesIn_block validEntity sparesEntity (endsName_blocksText validOthers)
        (Reader.stops_blocksText (by decide) indentation others),
      ih validOthers sparesOthers, List.filterMap_cons]
    cases entity.declaredType? <;> rfl

/-- The tokens of a layout declare its data types and enumerations, in order and each once. -/
theorem declaredNames_write (indentation : Indentation) {entities : List Entity}
    (valid : ∀ entity ∈ entities, entity.isWellFormed = true)
    (spares : ∀ entity ∈ entities, entity.SparesReservedWord) :
    declaredNames (write indentation entities)
      = (entities.filterMap Entity.declaredType?).eraseDups := by
  have sparesTrimmed := Entity.forall_mem_trimLast (fun _ _ => ⟨nofun, List.forall_mem_nil _⟩) spares
  have sameNames : (Entity.trimLast entities).filterMap Entity.declaredType?
      = entities.filterMap Entity.declaredType? := by
    have named : ∀ found : List Entity, found.filterMap Entity.declaredType?
        = (found.map Entity.declaredType?).filterMap id := by
      intro found
      rw [List.filterMap_map]
      rfl
    have same : (Entity.trimLast entities).map Entity.declaredType? = entities.map Entity.declaredType? :=
      Entity.map_trimLast (fun _ => rfl) entities
    rw [named, named, same]
  rw [declaredNames_eq, toList_write valid, namesIn, namesAmong_trimStart, ← namesIn,
    namesIn_blocksText (Entity.isWellFormed_trimLast valid) sparesTrimmed, sameNames]

/-- Names are repeated, and what looks like a declaration stands in comments, strings and values. -/
def misleadingEntities : List Entity :=
  [.comment " enum Lost \x7b",
    .enumeration
      ⟨"Kind", some "Gone \x7b", [⟨"@enum", ["Away \x7b"], OptionTable.insert ∅ "enum" "Off \x7b"⟩],
        ["Box", "enum"]⟩,
    .dataType ⟨"Box", none, [],
      [.plain ⟨"enum", .mk "Map" true [.simple "string", .simple "Kind"], none, none, []⟩,
        .plain ⟨"size", .simple "double", some "enum Size", some "-1.5e3", []⟩,
        .inline (.bare "kid" (.listOf TypeRef.objectName))
          [.inline (.bare "bag" (.simple TypeRef.objectName)) []]]⟩,
    .method
      ⟨"open", none, [], .simple "Box", [⟨"enum", .simple "Kind", [⟨"@Query", ["enum"], ∅⟩]⟩]⟩,
    .dataType ⟨"Lid", none, [], []⟩, .dataType ⟨"Box", none, [], []⟩, .comment " Lid \x7b \x7d "]

theorem declaredNames_write_misleadingEntities :
    declaredNames (write .tab misleadingEntities) = ["Kind", "Box", "Lid"]
      ∧ declaredNames (write (.spaces 4) misleadingEntities) = ["Kind", "Box", "Lid"] := by
  have valid : ∀ entity ∈ misleadingEntities, entity.isWellFormed = true := by decide +kernel
  have spares : ∀ entity ∈ misleadingEntities, entity.SparesReservedWord := by decide
  rw [declaredNames_write .tab valid spares, declaredNames_write (.spaces 4) valid spares]
  decide

end Layout

end ApiDef
