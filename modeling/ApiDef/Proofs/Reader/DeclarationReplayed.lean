import ApiDef.Proofs.Reader.Replayed
set_option autoImplicit false

/-!
# Declarations are read again alike

A declaration comes to the same in a copy of what it took. The one look at its first word sees the same
too, because the word ends before the bracket that every declaration has.
-/

namespace ApiDef

open Text

namespace Reader

variable {α : Type} {lines : Nat}

/-!
## The end of the first word
-/

/-- Some of what the reader takes belongs to no word. -/
def BreaksWord (reader : Reader α) : Prop :=
  ∀ start value stop, reader.Reads start value stop →
    ∃ c passed, start.rest = passed ++ stop.rest ∧ c ∈ passed ∧ isIdentifierChar c = false

theorem BreaksWord.bind {β : Type} {first : Reader α} {next : α → Reader β}
    (firstBreaks : first.BreaksWord) : (first >>= next).BreaksWord := by
  intro start result stop read
  obtain ⟨value, middle, readFirst, readNext⟩ := reads_bind_iff.mp read
  obtain ⟨c, passed, rest, member, outside⟩ := firstBreaks start value middle readFirst
  obtain ⟨further, middleRest, -⟩ := readNext.reaches
  refine ⟨c, passed ++ further, ?_, List.mem_append_left _ member, outside⟩
  rw [rest, middleRest, List.append_assoc]

theorem BreaksWord.andThen {β : Type} {first : Reader α} {next : α → Reader β}
    (nextBreaks : ∀ value, (next value).BreaksWord) : (first >>= next).BreaksWord := by
  intro start result stop read
  obtain ⟨value, middle, readFirst, readNext⟩ := reads_bind_iff.mp read
  obtain ⟨passed, rest, -⟩ := readFirst.reaches
  obtain ⟨c, further, middleRest, member, outside⟩ := nextBreaks value middle result stop readNext
  refine ⟨c, passed ++ further, ?_, List.mem_append_right _ member, outside⟩
  rw [rest, middleRest, List.append_assoc]

theorem BreaksWord.advances {reader : Reader α} (breaks : reader.BreaksWord) :
    reader.Advances fun _ => True := by
  intro start value stop asked ran _
  obtain ⟨c, passed, rest, member, -⟩ := breaks start value stop ⟨asked, ran⟩
  have taken := List.length_pos_of_mem member
  rw [rest, List.length_append]
  omega

theorem breaksWord_of_failing {reader : Reader α}
    (fails : ∀ start value stop, ¬reader.Reads start value stop) : reader.BreaksWord :=
  fun start value stop read => absurd read (fails start value stop)

theorem breaksWord_require {c : Char} (outside : isIdentifierChar c = false) :
    (require c).BreaksWord := by
  intro start value stop read
  obtain ⟨found, middle, ⟨asked, ran⟩, read⟩ := reads_bind_iff.mp read
  cases found with
  | false => exact absurd read (not_reads_of_failed rfl)
  | true =>
    obtain ⟨-, rfl⟩ := reads_pure_iff.mp read
    simp only [eat, eatText] at ran
    split at ran
    next starts =>
      obtain ⟨-, rfl, -⟩ := Outcome.done.inj ran
      obtain ⟨others, whole⟩ := List.isPrefixOf_iff_prefix.mp starts
      refine ⟨c, [c], ?_, List.mem_singleton_self c, outside⟩
      rw [← whole]
      rfl
    next => cases ran

theorem breaksWord_dataTypeBehindName {grammar : Grammar} {tags : List (Tag × Span)} {name : String}
    {namePlace : Span} : (dataTypeBehindName grammar tags name namePlace).BreaksWord := by
  unfold dataTypeBehindName
  split
  · apply BreaksWord.andThen
    intro _
    apply BreaksWord.andThen
    intro _
    exact (breaksWord_require (by decide)).bind
  · exact breaksWord_of_failing fun _ _ _ => not_reads_of_failed rfl

theorem breaksWord_methodBehindName {grammar : Grammar} {tags : List (Tag × Span)} {name : String}
    {namePlace : Span} : (methodBehindName grammar tags name namePlace).BreaksWord := by
  unfold methodBehindName
  split
  · exact (breaksWord_require (by decide)).bind
  · exact breaksWord_of_failing fun _ _ _ => not_reads_of_failed rfl

theorem breaksWord_namedDeclaration (grammar : Grammar) (tags : List (Tag × Span)) :
    (namedDeclaration grammar tags).BreaksWord := by
  rw [namedDeclaration_eq]
  apply BreaksWord.andThen
  intro named
  apply BreaksWord.andThen
  intro _
  apply BreaksWord.andThen
  intro opensBody
  cases opensBody with
  | true => exact breaksWord_dataTypeBehindName
  | false =>
    apply BreaksWord.andThen
    intro opensParameters
    cases opensParameters with
    | true => exact breaksWord_methodBehindName
    | false => exact breaksWord_of_failing fun _ _ _ => not_reads_of_failed rfl

theorem breaksWord_enumeration (tags : List Tag) : (enumeration tags).BreaksWord := by
  apply BreaksWord.andThen
  intro _
  apply BreaksWord.andThen
  intro name
  apply BreaksWord.andThen
  intro _
  apply BreaksWord.andThen
  intro _
  exact (breaksWord_require (by decide)).bind

theorem breaksWord_keywordDeclaration (grammar : Grammar) (tags : List (Tag × Span)) :
    (keywordDeclaration grammar tags).BreaksWord := by
  unfold keywordDeclaration
  split
  · apply BreaksWord.andThen
    intro _
    apply BreaksWord.andThen
    intro _
    exact (breaksWord_enumeration _).bind
  · exact breaksWord_of_failing fun _ _ _ => not_reads_of_failed rfl

/-!
## Declarations
-/

theorem isReplayed_values : (rounds valueRound advances_valueRound ()).IsReplayed := by
  apply isReplayed_rounds
  intro _
  apply isReplayed_skipTrivia.bind
  intro _
  apply (isReplayed_eat '}').bind
  intro closed
  cases closed with
  | true => exact isReplayed_pure _
  | false =>
    apply (isReplayed_identifier _).bind
    intro value
    apply isReplayed_skipTrivia.bind
    intro _
    apply (isReplayed_eat '}').bind
    intro closed
    cases closed with
    | true => exact isReplayed_pure _
    | false =>
      apply (isReplayed_eat ',').bind
      intro comma
      cases comma with
      | true => exact isReplayed_pure _
      | false => exact isReplayed_unexpected _

theorem isReplayed_enumeration (tags : List Tag) : (enumeration tags).IsReplayed := by
  apply isReplayed_skipTrivia.bind
  intro _
  apply (isReplayed_identifier []).bind
  intro name
  apply (isReplayed_ask _).bind
  intro _
  apply isReplayed_skipTrivia.bind
  intro _
  apply (isReplayed_require '{').bind
  intro _
  exact isReplayed_values.bind fun _ => isReplayed_pure _

/-- The same parameter, at whatever places. -/
def SameParameter (read again : ReadParameter) : Prop :=
  read.parameter = again.parameter

theorem replays_parameter {types : Advancing TypeRef} (typesReplayed : types.toReader.IsReplayed) :
    Replays lines SameParameter (parameter types) (parameter types) := by
  apply replays_tags.bind
  intro tags copyTags sameTags
  apply (isReplayed_identifier _).andThen
  intro name
  apply isReplayed_skipTrivia.andThen
  intro _
  apply (isReplayed_require ':').andThen
  intro _
  apply isReplayed_skipTrivia.andThen
  intro _
  apply (replays_spanned typesReplayed).bind
  rintro ⟨type, place⟩ ⟨_, copyPlace⟩ rfl
  apply replays_pure
  exact congrArg (Parameter.mk name type) sameTags

theorem replays_parameters {types : Advancing TypeRef} (typesReplayed : types.toReader.IsReplayed) :
    Replays lines (List.Forall₂ SameParameter) (parameters types) (parameters types) := by
  apply isReplayed_skipTrivia.andThen
  intro _
  apply (isReplayed_eat ')').andThen
  intro closed
  cases closed with
  | true => exact replays_pure .nil
  | false => exact replays_separated isReplayed_skipTrivia (replays_parameter typesReplayed)

theorem replays_askParameters {found again : List ReadParameter}
    (same : List.Forall₂ SameParameter found again) :
    Replays lines Eq (askParameters found) (askParameters again) := by
  induction same with
  | nil => exact replays_pure rfl
  | cons _ _ ih =>
    apply (replays_ask _ _).bind
    intro _ _ _
    apply (replays_ask _ _).bind
    intro _ _ _
    exact ih

section

variable {tags copyTags : List (Tag × Span)} (sameTags : SameTags tags copyTags)

include sameTags

theorem replays_method {limit : Nat} {name : String} {namePlace copyPlace : Span} :
    Replays lines Eq (method limit tags name namePlace) (method limit copyTags name copyPlace) := by
  have typesReplayed := isReplayed_typeRef limit (limit + 1)
  apply (replays_parameters typesReplayed).bind
  intro parameters copyParameters sameParameters
  apply isReplayed_skipTrivia.andThen
  intro _
  apply (isReplayed_require ':').andThen
  intro _
  apply isReplayed_skipTrivia.andThen
  intro _
  apply (replays_spanned typesReplayed).bind
  rintro ⟨returnType, returnPlace⟩ ⟨_, copyReturnPlace⟩ rfl
  have signature : parameters.map ReadParameter.parameter = copyParameters.map ReadParameter.parameter :=
    List.forall₂_eq_eq_eq ▸ List.forall₂_map_left_iff.mpr (List.forall₂_map_right_iff.mpr sameParameters)
  simp only [signature, show tags.map (·.1) = copyTags.map (·.1) from sameTags]
  apply (replays_ask _ _).bind
  intro _ _ _
  apply (replays_askParameters sameParameters).bind
  intro _ _ _
  apply (replays_ask _ _).bind
  intro _ _ _
  split
  · apply (replays_ask _ _).bind
    intro _ _ _
    exact replays_pure rfl
  · exact replays_pure rfl

theorem replays_keywordDeclaration (grammar : Grammar) :
    Replays lines Eq (keywordDeclaration grammar tags) (keywordDeclaration grammar copyTags) := by
  rw [keywordDeclaration, keywordDeclaration, show tags.map (·.1) = copyTags.map (·.1) from sameTags]
  split
  · apply (isReplayed_eatText _).andThen
    intro _
    apply (replays_ask _ _).bind
    intro _ _ _
    apply (isReplayed_enumeration _).andThen
    intro declared
    exact replays_pure rfl
  · exact replays_of_failing fun _ _ _ => not_reads_of_failed rfl

theorem replays_dataTypeBehindName {grammar : Grammar} {name : String} {namePlace copyPlace : Span} :
    Replays lines Eq (dataTypeBehindName grammar tags name namePlace)
      (dataTypeBehindName grammar copyTags name copyPlace) := by
  rw [dataTypeBehindName, dataTypeBehindName, show tags.map (·.1) = copyTags.map (·.1) from sameTags]
  split
  · apply (replays_ask _ _).bind
    intro _ _ _
    apply (replays_ask _ _).bind
    intro _ _ _
    apply (isReplayed_require '{').andThen
    intro _
    apply (isReplayed_body _ _).andThen
    intro properties
    exact replays_pure rfl
  · exact replays_of_failing fun _ _ _ => not_reads_of_failed rfl

theorem replays_methodBehindName {grammar : Grammar} {name : String} {namePlace copyPlace : Span} :
    Replays lines Eq (methodBehindName grammar tags name namePlace)
      (methodBehindName grammar copyTags name copyPlace) := by
  unfold methodBehindName
  split
  · apply (isReplayed_require '(').andThen
    intro _
    apply (replays_method sameTags).bind
    rintro declared _ rfl
    exact replays_pure rfl
  · exact replays_of_failing fun _ _ _ => not_reads_of_failed rfl

theorem replays_declarationBehindName {grammar : Grammar} {name : String}
    {namePlace copyPlace : Span} :
    Replays lines Eq (declarationBehindName grammar tags name namePlace)
      (declarationBehindName grammar copyTags name copyPlace) := by
  have front : ∀ (c : Char) (cs others : List Char), cs.head? = others.head? →
      decide (cs.head? = some c) = decide (others.head? = some c) := by
    intro c cs others same
    rw [same]
  apply replays_lookHead_bind (front '{')
  · intro opensBody
    cases opensBody with
    | true => exact breaksWord_dataTypeBehindName.advances
    | false =>
      apply Advances.andThen
      intro opensParameters
      cases opensParameters with
      | true => exact breaksWord_methodBehindName.advances
      | false => exact advances_unexpected
  · intro opensBody
    cases opensBody with
    | true => exact replays_dataTypeBehindName sameTags
    | false =>
      apply replays_lookHead_bind (front '(')
      · intro opensParameters
        cases opensParameters with
        | true => exact breaksWord_methodBehindName.advances
        | false => exact advances_unexpected
      · intro opensParameters
        cases opensParameters with
        | true => exact replays_methodBehindName sameTags
        | false => exact replays_unexpected

theorem replays_namedDeclaration (grammar : Grammar) :
    Replays lines Eq (namedDeclaration grammar tags) (namedDeclaration grammar copyTags) := by
  rw [namedDeclaration_eq, namedDeclaration_eq]
  apply (replays_spanned (isReplayed_identifier _)).bind
  rintro ⟨name, namePlace⟩ ⟨_, copyPlace⟩ rfl
  apply isReplayed_skipTrivia.andThen
  intro _
  exact replays_declarationBehindName sameTags

end

/-- The first word of a declaration ends before its bracket, so it is the same word in a copy. -/
theorem isReplayed_declaration (grammar : Grammar) : (declaration grammar).IsReplayed := by
  intro lines
  apply replays_tags.bind
  intro tags copyTags sameTags
  have breaks : ∀ isEnumeration : Bool, (if isEnumeration then keywordDeclaration grammar tags
      else namedDeclaration grammar tags).BreaksWord := by
    intro isEnumeration
    cases isEnumeration with
    | true => exact breaksWord_keywordDeclaration grammar tags
    | false => exact breaksWord_namedDeclaration grammar tags
  apply replays_look_bind
  · intro start entity stop first last read copies
    obtain ⟨c, others, rest, member, outside⟩ := breaks _ _ _ _ read
    obtain ⟨⟨passed, whole, copy, -⟩, -, -⟩ := copies
    obtain rfl : others = passed := List.append_cancel_right (rest.symm.trans whole)
    rw [Bool.eq_iff_iff, startsEnumeration, startsEnumeration, isSome_afterWord?_iff (by decide),
      isSome_afterWord?_iff (by decide), whole, copy, takeWhile_append_of_mem member outside,
      takeWhile_append_of_mem member outside]
  · intro isEnumeration
    cases isEnumeration with
    | true => exact replays_keywordDeclaration sameTags grammar
    | false => exact replays_namedDeclaration sameTags grammar

end Reader

end ApiDef
