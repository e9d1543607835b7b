import ApiDef.Proofs.Layout.Trim
import ApiDef.Proofs.Text.PlainLines
import ApiDef.Proofs.Text.RespelledLiteral
set_option autoImplicit false

/-!
# Plain line endings in the layout

Only comments and descriptions can bring carriage returns to the ends of lines. Making the line
endings of a layout plain takes from them what reading takes, so it gives the layout of the entities
that are read.
-/

namespace ApiDef

open Text CommandLine

/-!
## Words, types and tags
-/

theorem becomesPlain_identifier {name : String} (valid : isIdentifier name = true) :
    BecomesPlain name.toList name.toList := by
  obtain ⟨first, others, -, -, inside⟩ := exists_of_isIdentifier valid
  exact becomesPlain_self fun member => absurd (inside '\r' member) (by decide)

theorem becomesPlain_bracketed {ι : Type} {opening closing : Char} {text : ι → List Char}
    {items : List ι} (marks : opening ≠ '\r' ∧ closing ≠ '\r')
    (each : ∀ x ∈ items, BecomesPlain (text x) (text x)) :
    BecomesPlain (Reader.bracketed opening closing text items)
      (Reader.bracketed opening closing text items) := by
  cases items with
  | nil => exact becomesPlain_nil
  | cons first others =>
    obtain ⟨here, there⟩ := List.forall_mem_cons.mp each
    have behind : BecomesPlain (others.flatMap fun x => ',' :: ' ' :: text x)
        (others.flatMap fun x => ',' :: ' ' :: text x) :=
      becomesPlain_flatMap fun x member => ((there x member).cons (by decide)).cons (by decide)
    have close : BecomesPlain [closing] [closing] := becomesPlain_nil.cons marks.2
    exact (here.append (behind.append close)).cons marks.1

theorem becomesPlain_listMark (isList : Bool) :
    BecomesPlain (TypeRef.listMark isList).toList (TypeRef.listMark isList).toList := by
  cases isList with
  | false => exact becomesPlain_nil
  | true => exact becomesPlain_self (by decide)

mutual

theorem TypeRef.becomesPlain_text : (type : TypeRef) → type.isWellFormed = true →
    BecomesPlain type.text.toList type.text.toList
  | .mk name isList generics, valid => by
    obtain ⟨validName, validGenerics⟩ := Bool.and_eq_true_iff.mp valid
    have marks : '<' ≠ '\r' ∧ '>' ≠ '\r' := by decide
    have arguments := becomesPlain_bracketed marks
      (TypeRef.becomesPlain_texts generics validGenerics)
    rw [TypeRef.toList_text]
    exact (becomesPlain_identifier validName).append (arguments.append (becomesPlain_listMark isList))

theorem TypeRef.becomesPlain_texts : (types : List TypeRef) → TypeRef.areWellFormed types = true →
    ∀ type ∈ types, BecomesPlain type.text.toList type.text.toList
  | [], _ => List.forall_mem_nil _
  | type :: others, valid => by
    obtain ⟨here, there⟩ := Bool.and_eq_true_iff.mp valid
    exact List.forall_mem_cons.mpr
      ⟨TypeRef.becomesPlain_text type here, TypeRef.becomesPlain_texts others there⟩

end

theorem becomesPlain_quote (text : String) : BecomesPlain (quote text).toList (quote text).toList :=
  becomesPlain_self fun member => absurd (Literal.not_isControl_of_mem_quote member) (by decide)

theorem becomesPlain_tagItem {item : Reader.TagItem} (valid : item.isWellFormed = true) :
    BecomesPlain item.text item.text := by
  cases item with
  | argument value => exact becomesPlain_quote value
  | option key value =>
    have assigned : BecomesPlain [' ', '=', ' '] [' ', '=', ' '] := becomesPlain_self (by decide)
    exact (becomesPlain_identifier valid).append (assigned.append (becomesPlain_quote value))

theorem becomesPlain_tag {tag : Tag} (valid : tag.isWellFormed = true) :
    BecomesPlain tag.text.toList tag.text.toList := by
  obtain ⟨name, same, validName⟩ := Reader.exists_of_tag valid
  have marks : '(' ≠ '\r' ∧ ')' ≠ '\r' := by decide
  have items := becomesPlain_bracketed marks
    fun item member => becomesPlain_tagItem (Tag.items_isWellFormed valid item member)
  have start : BecomesPlain tag.name.toList tag.name.toList := by
    rw [same, String.toList_append]
    exact (becomesPlain_identifier validName).cons (c := '@') (by decide)
  rw [Tag.toList_text]
  exact start.append items

theorem becomesPlain_literal {text : String} (valid : isLiteral text = true) :
    BecomesPlain text.toList text.toList := by
  obtain ⟨literal, found⟩ := Reader.exists_scan_of_isLiteral valid delimits_nil
  rcases Literal.scan_cases found with
    ⟨quote, others, contents, inside, isQuote, -, passed, scanned⟩ | number | ⟨word, member, passed⟩
  · -- The string may hold carriage returns, but ends with its quote.
    have oneLine := Literal.not_lineFeed_of_scanContents quote others
    have last := Literal.getLast?_of_scanContents scanned
    have quoteStays : quote ≠ '\n' ∧ quote ≠ '\r' := by
      rcases isQuote with rfl | rfl <;> decide
    rw [scanned] at oneLine
    rw [passed]
    refine becomesPlain_self_of_getLast? ?_ ?_
    · rw [List.mem_cons, not_or]
      exact ⟨Ne.symm quoteStays.1, oneLine⟩
    · rw [List.getLast?_cons, last, Option.getD_some]
      exact fun same => quoteStays.2 (Option.some.inj same)
  · exact becomesPlain_self fun member => absurd (number '\r' member) (by decide)
  · have words : ∀ word ∈ ["true", "false", "null"], word.toList.contains '\r' = false := by decide
    rw [passed]
    exact becomesPlain_self fun isReturn => by simpa [isReturn] using words word member

namespace Layout

/-!
## What stands above a construct
-/

theorem descriptionLines_reread (description : Option String) :
    descriptionLines (description.map rereadDescription)
      = (descriptionLines description).map dropCarriageReturn := by
  cases description with
  | none => rfl
  | some text =>
    have nonempty : (text.toList.splitOn '\n').map rereadLine ≠ [] :=
      fun none => List.splitOn_ne_nil _ _ (List.map_eq_nil_iff.mp none)
    have oneLine : ∀ line ∈ (text.toList.splitOn '\n').map rereadLine, '\n' ∉ line.toList := by
      refine List.forall_mem_map.mpr fun line member inside => ?_
      rw [rereadLine, String.toList_ofList] at inside
      exact not_mem_of_mem_splitOn member (mem_of_mem_dropCarriageReturn inside)
    have split := lines_intercalate nonempty oneLine
    have asLists := congrArg (List.map String.toList) split
    simpa [descriptionLines, lines, rereadDescription, rereadLine, Function.comp_def] using asLists

variable {margin : List Char}

theorem becomesPlain_above (plainMargin : BecomesPlain margin margin) (description : Option String)
    {tags : List Tag} (valid : ∀ tag ∈ tags, tag.isWellFormed = true) :
    BecomesPlain (above margin description tags)
      (above margin (description.map rereadDescription) tags) := by
  have slashes : BecomesPlain ['/', '/'] ['/', '/'] := becomesPlain_self (by decide)
  have lineFeed : BecomesPlain ['\n'] ['\n'] := becomesPlain_self (by decide)
  rw [above, above, descriptionLines_reread, List.flatMap_map]
  refine (becomesPlain_flatMap fun line member => ?_).append (becomesPlain_flatMap fun tag member => ?_)
  · have ended := (becomesPlain_line (not_mem_descriptionLines member)).append plainMargin
    rw [List.append_assoc, List.append_assoc] at ended
    exact slashes.append ended
  · exact (becomesPlain_tag (valid tag member)).append (lineFeed.append plainMargin)

/-!
## Bodies
-/

variable {indentation : Indentation} {depth : Nat}

theorem becomesPlain_margin (indentation : Indentation) (depth : Nat) :
    BecomesPlain (indentation.margin depth).toList (indentation.margin depth).toList := by
  refine becomesPlain_self fun member => ?_
  rcases Indentation.mem_margin member with same | same
  · cases same
  · cases same

theorem becomesPlain_defaultText {defaultValue : Option String}
    (valid : defaultValue.all isLiteral = true) :
    BecomesPlain (defaultText defaultValue).toList (defaultText defaultValue).toList := by
  cases defaultValue with
  | none => exact becomesPlain_nil
  | some value =>
    have assigned : BecomesPlain [' ', '=', ' '] [' ', '=', ' '] := becomesPlain_self (by decide)
    rw [toList_defaultText_some]
    exact assigned.append (becomesPlain_literal valid)

theorem becomesPlain_bodyText {members : List Property}
    (inside : BecomesPlain (membersText indentation (depth + 1) members)
      (membersText indentation (depth + 1) (Property.rereadAll members))) :
    BecomesPlain (bodyText indentation depth members)
      (bodyText indentation depth (Property.rereadAll members)) := by
  have brace : BecomesPlain ['}'] ['}'] := becomesPlain_self (by decide)
  cases members with
  | nil => exact brace
  | cons first others =>
    rw [Property.rereadAll, bodyText, bodyText, toList_properties, toList_properties]
    exact (inside.append ((becomesPlain_margin indentation depth).append brace)).cons (by decide)

theorem becomesPlain_memberText_of {member : Property} (valid : member.isWellFormed = true)
    (shape : BecomesPlain (shapeText indentation depth member)
      (shapeText indentation depth member.reread)) :
    BecomesPlain (memberText indentation depth member)
      (memberText indentation depth member.reread) := by
  obtain ⟨validName, validTags, validDefault⟩ := member.isWellFormed_field valid
  have sameField : member.reread.field = member.field.reread := by
    cases member <;> rfl
  have colon : BecomesPlain [':', ' '] [':', ' '] := becomesPlain_self (by decide)
  have start := becomesPlain_above (becomesPlain_margin indentation depth)
    member.field.description validTags
  rw [memberText, memberText, sameField]
  exact start.append ((becomesPlain_identifier validName).append
    (colon.append (shape.append (becomesPlain_defaultText validDefault))))

mutual

theorem becomesPlain_shapeText (depth : Nat) : (member : Property) → member.isWellFormed = true →
    BecomesPlain (shapeText indentation depth member) (shapeText indentation depth member.reread)
  | .plain field, valid => by
    simp only [Property.isWellFormed, Field.isWellFormed, Bool.and_eq_true] at valid
    exact field.type.becomesPlain_text valid.1.1.2
  | .inline field members, valid => by
    rw [Property.isWellFormed, Bool.and_eq_true] at valid
    have body := becomesPlain_bodyText (becomesPlain_membersText (depth + 1) members valid.2)
    have bracket : BecomesPlain [']'] [']'] := becomesPlain_self (by decide)
    rw [Property.reread, shapeText, shapeText]
    change BecomesPlain _ (if field.type.isList then _ else _)
    split
    · exact ((body.append bracket).cons (by decide)).cons (by decide)
    · exact body.cons (by decide)

theorem becomesPlain_membersText (depth : Nat) : (members : List Property) →
    Property.areWellFormed members = true →
    BecomesPlain (membersText indentation depth members)
      (membersText indentation depth (Property.rereadAll members))
  | [], _ => becomesPlain_nil
  | member :: others, valid => by
    obtain ⟨here, there⟩ := Bool.and_eq_true_iff.mp valid
    have lineFeed : BecomesPlain ['\n'] ['\n'] := becomesPlain_self (by decide)
    have first := becomesPlain_memberText_of here (becomesPlain_shapeText depth member here)
    exact ((becomesPlain_margin indentation depth).append (first.append lineFeed)).append
      (becomesPlain_membersText depth others there)

end

/-!
## Blocks
-/

theorem becomesPlain_valuesText (indentation : Indentation) {values : List String}
    (valid : ∀ value ∈ values, isIdentifier value = true) :
    BecomesPlain (valuesText indentation values) (valuesText indentation values) := by
  have plainUnit : BecomesPlain indentation.unit.toList indentation.unit.toList :=
    indentation.margin_one ▸ becomesPlain_margin indentation 1
  have brace : BecomesPlain ['}'] ['}'] := becomesPlain_self (by decide)
  cases values with
  | nil => exact brace
  | cons first others =>
    obtain ⟨validFirst, validOthers⟩ := List.forall_mem_cons.mp valid
    have comma : BecomesPlain [',', '\n'] [',', '\n'] := becomesPlain_self (by decide)
    have close : BecomesPlain ['\n', '}'] ['\n', '}'] := brace.cons (by decide)
    have behind : BecomesPlain
        (others.flatMap fun value => ',' :: '\n' :: (indentation.unit.toList ++ value.toList))
        (others.flatMap fun value => ',' :: '\n' :: (indentation.unit.toList ++ value.toList)) :=
      becomesPlain_flatMap fun value member =>
        comma.append (plainUnit.append (becomesPlain_identifier (validOthers value member)))
    exact (plainUnit.append ((becomesPlain_identifier validFirst).append
      (behind.append close))).cons (by decide)

theorem becomesPlain_parameter {parameter : Parameter} (valid : parameter.isWellFormed = true) :
    BecomesPlain parameter.text.toList parameter.text.toList := by
  simp only [Parameter.isWellFormed, Bool.and_eq_true, List.all_eq_true] at valid
  obtain ⟨⟨validName, validType⟩, validTags⟩ := valid
  have space : BecomesPlain [' '] [' '] := becomesPlain_self (by decide)
  have tags : BecomesPlain (parameter.tags.flatMap fun tag => tag.text.toList ++ [' '])
      (parameter.tags.flatMap fun tag => tag.text.toList ++ [' ']) :=
    becomesPlain_flatMap fun tag member => (becomesPlain_tag (validTags tag member)).append space
  rw [Parameter.toList_text]
  exact tags.append ((becomesPlain_identifier validName).append
    ((parameter.type.becomesPlain_text validType).cons (by decide)))

theorem becomesPlain_parametersText {parameters : List Parameter}
    (valid : ∀ parameter ∈ parameters, parameter.isWellFormed = true) :
    BecomesPlain (parametersText parameters) (parametersText parameters) := by
  cases parameters with
  | nil => exact becomesPlain_nil
  | cons first others =>
    obtain ⟨validFirst, validOthers⟩ := List.forall_mem_cons.mp valid
    have behind : BecomesPlain (others.flatMap fun parameter => ',' :: ' ' :: parameter.text.toList)
        (others.flatMap fun parameter => ',' :: ' ' :: parameter.text.toList) :=
      becomesPlain_flatMap fun parameter member =>
        ((becomesPlain_parameter (validOthers parameter member)).cons (by decide)).cons (by decide)
    exact (becomesPlain_parameter validFirst).append behind

theorem becomesPlain_declarationText {entity : Entity} (notComment : entity.isComment = false)
    (valid : entity.isWellFormed = true) :
    BecomesPlain (declarationText indentation entity) (declarationText indentation entity.reread) := by
  have brace : BecomesPlain [' ', '{'] [' ', '{'] := becomesPlain_self (by decide)
  cases entity with
  | comment text => cases notComment
  | enumeration declared =>
    simp only [Entity.isWellFormed, Bool.and_eq_true, List.all_eq_true] at valid
    have keyword : BecomesPlain ("enum".toList ++ [' ']) ("enum".toList ++ [' ']) :=
      becomesPlain_self (by decide)
    have behind := brace.append (becomesPlain_valuesText indentation valid.2)
    have whole := keyword.append ((becomesPlain_identifier valid.1.1).append behind)
    rwa [List.append_assoc] at whole
  | dataType declared =>
    simp only [Entity.isWellFormed, Bool.and_eq_true] at valid
    exact (becomesPlain_identifier valid.1.1.1).append
      (brace.append (becomesPlain_bodyText (becomesPlain_membersText 1 declared.properties valid.2)))
  | method declared =>
    simp only [Entity.isWellFormed, Bool.and_eq_true, List.all_eq_true] at valid
    have behind : BecomesPlain (')' :: ':' :: declared.returnType.text.toList)
        (')' :: ':' :: declared.returnType.text.toList) :=
      ((declared.returnType.becomesPlain_text valid.2).cons (by decide)).cons (by decide)
    exact (becomesPlain_identifier valid.1.1.1.1).append
      (((becomesPlain_parametersText valid.1.2).append behind).cons (by decide))

theorem becomesPlain_block {entity : Entity} (notComment : entity.isComment = false)
    (valid : entity.isWellFormed = true) :
    BecomesPlain (block indentation entity).toList (block indentation entity.reread).toList := by
  have validTags := entity.isWellFormed_tags notComment valid
  have again : entity.reread.isComment = false := by
    cases entity <;> first | rfl | cases notComment
  have sameDescription : entity.reread.description? = entity.description?.map rereadDescription := by
    cases entity <;> rfl
  have sameTags : entity.reread.tags = entity.tags := by
    cases entity <;> rfl
  rw [toList_block notComment, toList_block again, sameDescription, sameTags]
  exact (becomesPlain_above becomesPlain_nil _ validTags).append
    (becomesPlain_declarationText notComment valid)

theorem plainLineEndings_comment {text : String} (oneLine : '\n' ∉ text.toList) {rest : List Char}
    (behind : text.toList.getLast? = some '\r' → ∃ others, rest = '\n' :: others) :
    plainLineEndings ((block indentation (.comment text)).toList ++ rest)
      = (block indentation (Entity.comment text).reread).toList ++ plainLineEndings rest := by
  have again : (block indentation (Entity.comment text).reread).toList
      = '#' :: dropCarriageReturn text.toList := by
    rw [Entity.reread, toList_comment, rereadLine, String.toList_ofList]
  rw [toList_comment, again, List.cons_append, plainLineEndings_cons (by rintro ⟨⟩), List.cons_append]
  congr 1
  by_cases last : text.toList.getLast? = some '\r'
  · obtain ⟨others, rfl⟩ := behind last
    rw [plainLineEndings_line oneLine, plainLineEndings_cons (by rintro ⟨⟩)]
  · rw [plainLineEndings_of_head?_ne oneLine fun same => absurd same last,
      dropCarriageReturn_of_getLast?_ne last]

/-- The blocks lose what reading takes from them; a comment at the end was trimmed before. -/
theorem plainLineEndings_blocksText {entities : List Entity}
    (valid : ∀ entity ∈ entities, entity.isWellFormed = true) :
    plainLineEndings (Reader.blocksText indentation (Entity.trimLast entities))
      = Reader.blocksText indentation (Entity.rereadAll entities) := by
  have blankLine : BecomesPlain ['\n', '\n'] ['\n', '\n'] := becomesPlain_self (by decide)
  have validTrimmed := Entity.isWellFormed_trimLast valid
  have trimmedEnd := Entity.getLast?_trimLast_ne entities
  rw [← Entity.map_reread_trimLast]
  generalize Entity.trimLast entities = blocks at validTrimmed trimmedEnd ⊢
  induction blocks with
  | nil => rfl
  | cons entity others ih =>
    obtain ⟨validEntity, validOthers⟩ := List.forall_mem_cons.mp validTrimmed
    have later := ih validOthers fun text last =>
      trimmedEnd text (by rw [List.getLast?_cons, last, Option.getD_some])
    have block : plainLineEndings ((block indentation entity).toList
          ++ Reader.blocksText indentation others)
        = (block indentation entity.reread).toList
          ++ plainLineEndings (Reader.blocksText indentation others) := by
      cases isComment : entity.isComment with
      | false => exact becomesPlain_block isComment validEntity _
      | true =>
        obtain ⟨text, rfl⟩ := Reader.exists_of_isComment isComment
        refine plainLineEndings_comment (Entity.isWellFormed_comment_iff.mp validEntity) fun last => ?_
        cases others with
        | nil => exact absurd last (trimmedEnd text rfl)
        | cons second behind => exact ⟨_, Reader.blocksText_cons indentation second behind⟩
    rw [List.map_cons, Reader.blocksText_cons, Reader.blocksText_cons, ← later, ← block]
    exact blankLine _

/-- A layout with plain line endings is the layout of what is read from it. -/
theorem plainLineEndings_write {entities : List Entity}
    (valid : ∀ entity ∈ entities, entity.isWellFormed = true) :
    plainLineEndings (write indentation entities).toList
      = (write indentation (Entity.rereadAll entities)).toList := by
  have validTrimmed := Entity.isWellFormed_trimLast valid
  have validAgain : ∀ entity ∈ Entity.rereadAll entities, entity.isWellFormed = true := by
    rw [← Entity.map_reread_trimLast]
    exact List.forall_mem_map.mpr fun entity member =>
      Entity.isWellFormed_reread (validTrimmed entity member)
  rw [toList_write valid, toList_write validAgain, Entity.trimLast_rereadAll,
    plainLineEndings_trimStart, plainLineEndings_blocksText valid]

end Layout

end ApiDef
