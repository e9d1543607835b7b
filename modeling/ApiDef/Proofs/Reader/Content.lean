import ApiDef.Proofs.Check.Walk
import ApiDef.Proofs.Model.WellFormed
import ApiDef.Proofs.Reader.Quiet
import ApiDef.Proofs.Text.Literal
set_option autoImplicit false

/-!
# What readers return and ask

Whatever a reader returns is well-formed, nests within the levels that were left, and the questions
asked on the way are those that the walk over the value raises.
-/

namespace ApiDef.Reader

open Text

/-!
## Words, literals and types
-/

theorem ensures_identifier? (start : Cursor) :
    identifier?.Ensures start fun found _ asked =>
      (∀ name, found = some name → isIdentifier name = true) ∧ asked = [] := by
  intro value after asked ran
  refine ⟨fun name same => ?_, quiet_identifier?.asked_eq_nil ran⟩
  subst same
  simp only [identifier?] at ran
  split at ran
  next starts =>
    obtain ⟨same, -, -⟩ := Outcome.done.inj ran
    cases same
    exact isIdentifier_takeWhile starts
  next => cases ran

theorem ensures_identifier (also : List Expected) (start : Cursor) :
    (identifier also).Ensures start fun name _ asked => isIdentifier name = true ∧ asked = [] := by
  refine (ensures_identifier? start).andThen fun found after valid => ?_
  cases found with
  | none => exact ensures_unexpected
  | some name => exact ensures_pure ⟨valid name rfl, rfl⟩

/-- A name is the longest word at its place. -/
theorem ensures_identifier_longest (also : List Expected) (start : Cursor) :
    (identifier also).Ensures start fun name _ asked =>
      start.rest.takeWhile isIdentifierChar = name.toList ∧ asked = [] := by
  have longest : identifier?.Ensures start fun found _ asked =>
      (∀ name, found = some name → start.rest.takeWhile isIdentifierChar = name.toList)
        ∧ asked = [] := by
    intro value after asked ran
    refine ⟨fun name same => ?_, quiet_identifier?.asked_eq_nil ran⟩
    subst same
    simp only [identifier?] at ran
    split at ran
    next =>
      obtain ⟨same, -, -⟩ := Outcome.done.inj ran
      cases same
      rw [String.toList_ofList]
    next => cases ran
  refine longest.andThen fun found after same => ?_
  cases found with
  | none => exact ensures_unexpected
  | some name => exact ensures_pure ⟨same name rfl, rfl⟩

theorem ensures_literal (start : Cursor) :
    literal.Ensures start fun found _ asked => isLiteral found.spelling = true ∧ asked = [] := by
  intro value after asked ran
  refine ⟨?_, quiet_literal.asked_eq_nil ran⟩
  simp only [literal] at ran
  split at ran
  next scanned =>
    obtain ⟨same, -, -⟩ := Outcome.done.inj ran
    subst same
    simp [isLiteral, Literal.scan_passed_nil scanned]
  next => cases ran

theorem ensures_typeArguments {inner : Unit → Advancing TypeRef} {good : TypeRef → Prop}
    (innerEnsures : ∀ start,
      (inner ()).toReader.Ensures start fun type _ asked => good type ∧ asked = [])
    (start : Cursor) :
    (typeArguments inner).Ensures start fun generics _ asked =>
      (∀ type ∈ generics, good type) ∧ asked = [] := by
  refine (quiet_eat '<').andThen fun opened after _ => ?_
  cases opened with
  | true => exact ensures_separated quiet_skipBlanks innerEnsures after
  | false => exact ensures_pure ⟨fun type member => absurd member List.not_mem_nil, rfl⟩

/-- A type nests within the levels that are left. -/
theorem ensures_typeRef (limit levels : Nat) (start : Cursor) :
    (typeRef limit levels).toReader.Ensures start fun type _ asked =>
      (type.isWellFormed = true ∧ type.nesting < levels) ∧ asked = [] := by
  induction levels generalizing start with
  | zero => exact ensures_fail
  | succ levels ih =>
    change (typeRefLevel fun _ => typeRef limit levels).Ensures start _
    rw [typeRefLevel_eq]
    refine (ensures_identifier [] start).andThen fun name afterName validName => ?_
    refine (ensures_typeArguments ih afterName).andThen fun generics afterGenerics valid => ?_
    refine quiet_listMark.andThen fun isList _ _ => ensures_pure ⟨⟨?_, ?_⟩, rfl⟩
    · have arguments := TypeRef.areWellFormed_iff.mpr fun type member => (valid type member).1
      simp [TypeRef.isWellFormed, validName, arguments]
    · have deepest := TypeRef.nestingOfAll_le_iff.mpr fun type member => (valid type member).2
      exact Nat.lt_succ_of_le deepest

/-!
## Tags
-/

theorem ensures_optionKey? (start : Cursor) :
    optionKey?.Ensures start fun found _ asked =>
      (∀ key, found = some key → isIdentifier key = true) ∧ asked = [] := by
  apply Ensures.attempt
  refine (ensures_identifier? start).andThen fun found after valid => ?_
  cases found with
  | none => exact ensures_pure ⟨fun key same => (by cases same), rfl⟩
  | some key =>
    refine quiet_skipBlanks.andThen fun _ _ _ => (quiet_eat '=').andThen fun assigned _ _ => ?_
    cases assigned with
    | true => exact ensures_pure ⟨valid, rfl⟩
    | false => exact ensures_pure ⟨fun key same => (by cases same), rfl⟩

theorem TagItem.isWellFormed_addTo {tag : Tag} {item : TagItem} (tagValid : tag.isWellFormed = true)
    (itemValid : item.isWellFormed = true) : (item.addTo tag).isWellFormed = true := by
  cases item with
  | argument value => exact tagValid
  | option key value =>
    simp only [Tag.isWellFormed, Bool.and_eq_true, List.all_eq_true] at tagValid ⊢
    refine ⟨tagValid.1, fun entry member => ?_⟩
    rcases OptionTable.mem_insertEntry member with same | member
    · rw [same]
      exact itemValid
    · exact tagValid.2 entry member

theorem TagItem.isWellFormed_foldl {items : List TagItem} {tag : Tag}
    (tagValid : tag.isWellFormed = true) (itemsValid : ∀ item ∈ items, item.isWellFormed = true) :
    (items.foldl TagItem.addTo tag).isWellFormed = true := by
  induction items generalizing tag with
  | nil => exact tagValid
  | cons item others ih =>
    have first := TagItem.isWellFormed_addTo tagValid (itemsValid item List.mem_cons_self)
    exact ih first fun other member => itemsValid other (List.mem_cons_of_mem _ member)

theorem ensures_tagItem (start : Cursor) :
    tagItem.Ensures start fun item _ asked => item.isWellFormed = true ∧ asked = [] := by
  refine (ensures_optionKey? start).andThen fun found after valid => ?_
  cases found with
  | none => exact quiet_literal.andThen fun _ _ _ => ensures_pure ⟨rfl, rfl⟩
  | some key =>
    refine quiet_skipBlanks.andThen fun _ _ _ => quiet_literal.andThen fun _ _ _ => ?_
    exact ensures_pure ⟨valid key rfl, rfl⟩

theorem ensures_tagItems (start : Cursor) :
    tagItems.Ensures start fun items _ asked =>
      (∀ item ∈ items, item.isWellFormed = true) ∧ asked = [] := by
  refine (quiet_eat '(').andThen fun opened _ _ => ?_
  cases opened with
  | false => exact ensures_pure ⟨List.forall_mem_nil _, rfl⟩
  | true =>
    refine quiet_skipBlanks.andThen fun _ _ _ => (quiet_eat ')').andThen fun closed after _ => ?_
    cases closed with
    | true => exact ensures_pure ⟨List.forall_mem_nil _, rfl⟩
    | false => exact ensures_separated quiet_skipBlanks ensures_tagItem after

theorem ensures_tagBody (start : Cursor) :
    tagBody.Ensures start fun tag _ asked => tag.isWellFormed = true ∧ asked = [] := by
  refine (ensures_identifier [] start).andThen fun name after validName => ?_
  refine (ensures_tagItems after).andThen fun items _ validItems => ensures_pure ⟨?_, rfl⟩
  refine TagItem.isWellFormed_foldl ?_ validItems
  simp [Tag.isWellFormed, validName, EmptyCollection.emptyCollection, OptionTable.empty]

theorem ensures_tags (start : Cursor) :
    tags.Ensures start fun found _ asked =>
      (∀ entry ∈ found, entry.1.isWellFormed = true) ∧ asked = [] := by
  refine ensures_rounds_each (fun state start => ?_) () start
  refine quiet_skipTrivia.andThen fun _ _ _ => quiet_here.andThen fun place _ _ => ?_
  refine (quiet_eat '@').andThen fun isTag after _ => ?_
  cases isTag with
  | false => exact ensures_pure ⟨List.forall_mem_nil _, rfl⟩
  | true =>
    refine (ensures_tagBody after).andThen fun tag _ validTag => ?_
    refine quiet_here.andThen fun stop _ _ => ?_
    exact ensures_pure ⟨⟨List.forall_mem_singleton.mpr validTag, rfl⟩, trivial⟩

theorem all_isWellFormed_map {found : List (Tag × Span)}
    (valid : ∀ entry ∈ found, entry.1.isWellFormed = true) :
    (found.map (·.1)).all Tag.isWellFormed = true := by
  simpa [List.all_eq_true] using fun tag place member => valid (tag, place) member

/-!
## Properties
-/

theorem ensures_defaultValue? (start : Cursor) :
    defaultValue?.Ensures start fun found _ asked => found.all isLiteral = true ∧ asked = [] := by
  refine (quiet_assigned ()).attempt.andThen fun assigned _ _ => ?_
  cases assigned with
  | none => exact ensures_pure ⟨rfl, rfl⟩
  | some =>
    refine quiet_skipBlanks.andThen fun _ after _ => (ensures_literal after).andThen ?_
    intro found _ valid
    exact ensures_pure ⟨valid, rfl⟩

/-- A comment is one line. -/
def PendingComment.IsLine (comment : PendingComment) : Prop :=
  '\n' ∉ comment.text.toList

theorem ensures_commentBehindMark (lastCodeLine : Nat) (place : Position) (slashed : Bool)
    (start : Cursor) :
    (commentBehindMark lastCodeLine place slashed).Ensures start fun found after asked =>
      (∀ comment, found = some comment → comment.IsLine ∧ comment.span = ⟨place, after.place⟩)
        ∧ asked = [] := by
  refine (quiet_takeWhile _).andThen fun text stop ran => ?_
  obtain ⟨rfl, -, -⟩ := Outcome.done.inj ran
  refine quiet_here.andThen fun place after atStop => ?_
  obtain ⟨rfl, rfl, -⟩ := Outcome.done.inj atStop
  refine ensures_pure ⟨?_, rfl⟩
  rintro _ ⟨⟩
  constructor
  · intro lineFeed
    rw [String.toList_ofList] at lineFeed
    have inside := List.all_eq_true.mp List.all_takeWhile _ (mem_of_mem_dropCarriageReturn lineFeed)
    simp at inside
  · rfl

/-- A comment is one line, and its span goes from where it starts to where the reader stops. -/
theorem ensures_comment?_span (lastCodeLine : Nat) (start : Cursor) :
    (comment? lastCodeLine).Ensures start fun found after asked =>
      (∀ comment, found = some comment → comment.IsLine ∧ comment.span = ⟨start.place, after.place⟩)
        ∧ asked = [] := by
  rw [comment?_eq]
  refine quiet_here.andThen fun place here ran => ?_
  obtain ⟨rfl, -, -⟩ := Outcome.done.inj ran
  refine (quiet_eatText _).andThen fun slashed afterSlashes _ => ?_
  cases slashed with
  | true => exact ensures_commentBehindMark lastCodeLine start.place true afterSlashes
  | false =>
    refine (quiet_eat '#').andThen fun hashed afterHash _ => ?_
    cases hashed with
    | true => exact ensures_commentBehindMark lastCodeLine start.place false afterHash
    | false =>
      apply ensures_pure
      constructor
      · rintro _ ⟨⟩
      · rfl

theorem ensures_comment? (lastCodeLine : Nat) (start : Cursor) :
    (comment? lastCodeLine).Ensures start fun found _ asked =>
      (∀ comment, found = some comment → comment.IsLine) ∧ asked = [] := by
  intro found after asked ran
  obtain ⟨facts, none⟩ := ensures_comment?_span lastCodeLine start _ _ _ ran
  exact ⟨fun comment same => (facts comment same).1, none⟩

/-- What holds of the properties of a body that has some levels left for what is in it. -/
def BodyContent (levels : Nat) (properties : List Property) (asked : List Question) : Prop :=
  (∀ property ∈ properties, property.isWellFormed = true ∧ property.nesting ≤ levels)
    ∧ asked.map Question.subject = Property.subjectsOfAll properties

theorem BodyContent.append {levels : Nat} {first second : List Property}
    {asked later : List Question} (here : BodyContent levels first asked)
    (there : BodyContent levels second later) :
    BodyContent levels (first ++ second) (asked ++ later) := by
  refine ⟨fun property member => ?_, ?_⟩
  · rcases List.mem_append.mp member with member | member
    · exact here.1 property member
    · exact there.1 property member
  · rw [List.map_append, here.2, there.2, Property.subjectsOfAll_append]

/-- What holds of the type of a property and of the body that it may have. -/
def ShapeContent (levels : Nat) : TypeRef × Option (List Property) → List Question → Prop
  | (type, none), asked =>
    type.isWellFormed = true ∧ type.nesting ≤ levels ∧ asked.map Question.subject = [.type type]
  | (type, some properties), asked =>
    type.isWellFormed = true ∧ type.isObject = true
      ∧ Property.areWellFormed properties = true ∧ Property.bodyNesting properties ≤ levels
      ∧ asked.map Question.subject = Property.subjectsOfAll properties

section

variable {levels : Nat} {types : Advancing TypeRef} {inner : Unit → Reader (List Property)}
  (typesEnsure : ∀ start, types.toReader.Ensures start fun type _ asked =>
    (type.isWellFormed = true ∧ type.nesting < levels + 1) ∧ asked = [])
  (innerEnsures : ∀ start, (inner ()).Ensures start fun properties _ asked =>
    (Property.areWellFormed properties = true ∧ Property.bodyNesting properties ≤ levels)
      ∧ asked.map Question.subject = Property.subjectsOfAll properties)

include typesEnsure innerEnsures

theorem ensures_propertyShape (start : Cursor) :
    (propertyShape types inner).Ensures start fun shape _ asked =>
      ShapeContent levels shape asked := by
  have object : ∀ isList, TypeRef.isWellFormed ⟨TypeRef.objectName, isList, []⟩ = true
      ∧ TypeRef.isObject ⟨TypeRef.objectName, isList, []⟩ = true := by decide
  refine (quiet_eat '{').andThen fun opened afterBrace _ => ?_
  cases opened with
  | true =>
    refine (innerEnsures afterBrace).bind fun properties after asked facts => ensures_pure ?_
    obtain ⟨⟨valid, nesting⟩, subjects⟩ := facts
    exact ⟨(object false).1, (object false).2, valid, nesting, by simpa using subjects⟩
  | false =>
    refine (quiet_eat '[').andThen fun listed afterBracket _ => ?_
    cases listed with
    | true =>
      refine quiet_skipBlanks.andThen fun _ _ _ => (quiet_require '{').andThen fun _ afterBrace _ => ?_
      refine (innerEnsures afterBrace).bind fun properties after asked facts => ?_
      obtain ⟨⟨valid, nesting⟩, subjects⟩ := facts
      refine quiet_skipBlanks.andThen fun _ _ _ => (quiet_require ']').andThen fun _ _ _ => ?_
      exact ensures_pure ⟨(object true).1, (object true).2, valid, nesting, by simpa using subjects⟩
    | false =>
      refine (ensures_spanned (typesEnsure afterBracket)).andThen fun found after valid => ?_
      obtain ⟨type, place⟩ := found
      apply ensures_ask_bind
      exact ensures_pure ⟨valid.1, Nat.le_of_lt_succ valid.2, rfl⟩

theorem ensures_property (start : Cursor) :
    (property types inner).Ensures start fun property _ asked => BodyContent levels [property] asked := by
  refine (ensures_tags start).andThen fun tags afterTags validTags => ?_
  have allTags := all_isWellFormed_map validTags
  apply ensures_ask_bind
  refine (ensures_identifier _ afterTags).andThen fun name _ validName => ?_
  refine quiet_skipBlanks.andThen fun _ _ _ => (quiet_require ':').andThen fun _ _ _ => ?_
  refine quiet_skipBlanks.andThen fun _ beforeShape _ => ?_
  refine (ensures_propertyShape typesEnsure innerEnsures beforeShape).bind ?_
  intro shape afterShape asked content
  refine (ensures_defaultValue? afterShape).andThen fun defaultValue _ validDefault => ensures_pure ?_
  obtain ⟨type, properties⟩ := shape
  cases properties with
  | none =>
    obtain ⟨validType, nesting, subjects⟩ := content
    refine ⟨fun property member => ?_, ?_⟩
    · rw [List.mem_singleton.mp member]
      refine ⟨?_, nesting⟩
      simp [Property.ofField, Property.isWellFormed, Field.isWellFormed, validName, validType,
        allTags, validDefault]
    · simp [Property.ofField, Property.subjectsOfAll, Property.subjects, subjects, Question.subject]
  | some properties =>
    obtain ⟨validType, isObject, validBody, nesting, subjects⟩ := content
    refine ⟨fun property member => ?_, ?_⟩
    · rw [List.mem_singleton.mp member]
      refine ⟨?_, nesting⟩
      simp [Property.ofField, Property.isWellFormed, Field.isWellFormed, validName, validType,
        allTags, validDefault, isObject, validBody]
    · simp [Property.ofField, Property.subjectsOfAll, Property.subjects, subjects, Question.subject]

theorem ensures_describedProperty (pending : Pending) (start : Cursor) :
    (describedProperty types inner pending).Ensures start fun round _ asked =>
      round.Meets (fun _ => True) (BodyContent levels · asked) := by
  refine quiet_here.andThen fun place afterPlace _ => ?_
  refine (ensures_property typesEnsure innerEnsures afterPlace).bind ?_
  intro property after asked content
  refine quiet_here.andThen fun _ _ _ => quiet_skipBlanks.andThen fun _ _ _ => ?_
  refine quiet_eatSeparator.andThen fun _ _ _ => quiet_here.andThen fun _ _ _ => ensures_pure ?_
  obtain ⟨valid, subjects⟩ := content
  refine ⟨⟨fun other member => ?_, ?_⟩, trivial⟩
  · rw [List.mem_singleton.mp member, Property.isWellFormed_mapField_description,
      Property.nesting_mapField_description]
    exact valid property List.mem_cons_self
  · simpa [Property.subjectsOfAll] using subjects

theorem ensures_propertyRound (pending : Pending) (start : Cursor) :
    (propertyRound types inner pending).Ensures start fun round _ asked =>
      round.Meets (fun _ => True) (BodyContent levels · asked) := by
  have nothing : BodyContent levels [] [] :=
    ⟨fun property member => absurd member List.not_mem_nil, rfl⟩
  refine quiet_skipBlanks.andThen fun _ _ _ => (quiet_comment? _).andThen fun comment _ _ => ?_
  cases comment with
  | some comment => exact ensures_pure ⟨nothing, trivial⟩
  | none =>
    refine (quiet_eat '}').andThen fun closed _ _ => ?_
    cases closed with
    | true => exact ensures_pure nothing
    | false =>
      refine (quiet_look _).andThen fun starts beforeProperty _ => ?_
      cases starts with
      | false => exact ensures_unexpected
      | true =>
        exact ensures_describedProperty typesEnsure innerEnsures pending beforeProperty

end

/-- The properties of a body nest within the levels that are left for the body. -/
theorem ensures_body (limit levels : Nat) (start : Cursor) :
    (body limit levels).Ensures start fun properties _ asked =>
      (Property.areWellFormed properties = true ∧ Property.bodyNesting properties ≤ levels)
        ∧ asked.map Question.subject = Property.subjectsOfAll properties := by
  induction levels generalizing start with
  | zero => exact ensures_fail
  | succ levels ih =>
    -- One level goes to the body itself, so its types and inline objects have `levels` left.
    refine quiet_here.andThen fun place after _ => ?_
    refine Ensures.mono (ensures_rounds (fun _ => True) (BodyContent levels)
      (fun _ _ _ _ here there => here.append there) ?_ trivial) ?_
    · intro pending start _
      refine ensures_propertyRound ?_ ?_ pending start
      · exact ensures_typeRef limit (levels + 1)
      · exact ih
    · intro properties _ asked content
      refine ⟨⟨?_, ?_⟩, content.2⟩
      · exact Property.areWellFormed_iff.mpr fun property member => (content.1 property member).1
      · exact Property.bodyNesting_le_iff.mpr fun property member => (content.1 property member).2

end ApiDef.Reader
