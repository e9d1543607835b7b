import ApiDef.Proofs.Reader.Locates
set_option autoImplicit false

/-!
# Where words, types and properties are found

Whatever is asked about the parts of a declaration is asked about where they stand.
-/

namespace ApiDef

open Text

namespace Reader

variable {α : Type} {base start : Cursor}

/-!
## Words and gaps
-/

theorem isLocated_look (f : List Char → α) : (look f).IsLocated :=
  fun _ _ _ => locates_of_run (run_look f _) trivial

theorem isLocated_takeWhile (p : Char → Bool) : (takeWhile p).IsLocated :=
  fun _ _ _ => locates_of_run rfl trivial

theorem isLocated_eatText (text : List Char) : (eatText text).IsLocated := by
  apply isLocated_of_quiet (quiet_eatText text)
  intro start fault asked failed
  simp only [eatText] at failed
  split at failed <;> cases failed

theorem isLocated_eat (c : Char) : (eat c).IsLocated := isLocated_eatText [c]

theorem isLocated_require {c : Char} (solid : c ≠ ' ') : (require c).IsLocated := by
  apply (isLocated_eat c).bind
  intro found
  cases found with
  | true => exact isLocated_pure ()
  | false => exact isLocated_unexpected (List.forall_mem_singleton.mpr (Expected.isPlain_singleton solid))

theorem isLocated_skipBlanks : skipBlanks.IsLocated :=
  (isLocated_takeWhile isBlank).bind fun _ => isLocated_pure ()

theorem isLocated_skipComment : skipComment.IsLocated := by
  apply isLocated_of_quiet quiet_skipComment
  intro start fault asked failed
  simp only [skipComment] at failed
  split at failed <;> cases failed

theorem isLocated_skipTrivia : skipTrivia.IsLocated := by
  have round : ∀ state, (triviaRound state).IsLocated := by
    intro state
    apply isLocated_skipBlanks.bind
    intro _
    apply isLocated_skipComment.bind
    intro found
    cases found with
    | true => exact isLocated_pure _
    | false => exact isLocated_pure _
  exact (isLocated_rounds round ()).bind fun _ => isLocated_pure ()

theorem isLocated_identifier? : identifier?.IsLocated := by
  apply isLocated_of_quiet quiet_identifier?
  intro start fault asked failed
  simp only [identifier?] at failed
  split at failed <;> cases failed

theorem isLocated_identifier {also : List Expected}
    (plain : ∀ alternative ∈ also ++ [.identifier], alternative.isPlain = true) :
    (identifier also).IsLocated := by
  apply isLocated_identifier?.bind
  intro found
  cases found with
  | some name => exact isLocated_pure name
  | none => exact isLocated_unexpected plain

theorem isLocated_literal : literal.IsLocated := by
  intro base start reached
  rw [Locates]
  have whole := Literal.whole_scan start.rest
  cases scanned : Literal.scan start.rest with
  | found value passed rest =>
    simp only [literal, scanned]
    exact ⟨trivial, Question.allWithin_nil _ _⟩
  | failed fault passed rest =>
    rw [scanned] at whole
    have onward : base.Reaches (start.pass passed rest) := reached.trans (Cursor.reaches_pass whole)
    simp only [literal, scanned]
    exact ⟨liesBehind_unexpected onward (isPlain_literalExpected scanned), List.forall_mem_nil _⟩

theorem locates_separated {gap : Reader Unit} {item : Advancing α} {close : Char}
    {good : α → Cursor → Prop} (gapLocated : gap.IsLocated) (solid : close ≠ ' ')
    (lasting : ∀ value first second, first.Reaches second → good value first → good value second)
    (itemLocates : ∀ start, base.Reaches start → item.toReader.Locates base start good)
    (reached : base.Reaches start) :
    (separated gap item close).Locates base start fun values after =>
      ∀ value ∈ values, good value after := by
  apply locates_rounds (fun _ _ => True) lasting
  · intro _ start reached _
    apply gapLocated.andThen reached
    intro _ beforeItem toItem
    apply (itemLocates beforeItem (reached.trans toItem)).bind
    intro value afterItem overItem holds
    have reachedItem := reached.trans (toItem.trans overItem)
    apply gapLocated.andThen reachedItem
    intro _ beforeMark toMark
    have reachedMark := reachedItem.trans toMark
    apply (isLocated_eat close).andThen reachedMark
    intro closed afterClose overClose
    have still : ∀ last, afterItem.Reaches last → ∀ other ∈ [value], good other last :=
      fun last onward => List.forall_mem_singleton.mpr (lasting value afterItem last onward holds)
    cases closed with
    | true => exact locates_pure (still afterClose (toMark.trans overClose))
    | false =>
      apply (isLocated_eat ',').andThen (reachedMark.trans overClose)
      intro comma afterComma overComma
      cases comma with
      | true =>
        exact locates_pure ⟨still afterComma (toMark.trans (overClose.trans overComma)), trivial⟩
      | false =>
        exact locates_unexpected (isPlain_separators solid)
          (reachedMark.trans (overClose.trans overComma))
  · exact reached
  · trivial

theorem isLocated_separated {gap : Reader Unit} {item : Advancing α} {close : Char}
    (gapLocated : gap.IsLocated) (itemLocated : item.toReader.IsLocated) (solid : close ≠ ' ') :
    (separated gap item close).IsLocated := by
  intro base start reached
  have each : (separated gap item close).Locates base start fun values _ => ∀ value ∈ values, True := by
    apply locates_separated gapLocated solid
    · intro _ _ _ _ _
      trivial
    · exact itemLocated base
    · exact reached
  exact each.isLocated

/-- The span goes from where the value starts to where the reader stops. -/
theorem locates_spanned {reader : Reader α} (located : reader.IsLocated) (reached : base.Reaches start) :
    (spanned reader).Locates base start fun result after =>
      result.2 = ⟨start.place, after.place⟩ := by
  apply locates_here_bind
  apply located.andThen reached
  intro value stop overValue
  apply locates_here_bind
  exact locates_pure rfl

/-!
## Types and tags
-/

theorem isLocated_listMark : listMark.IsLocated := by
  apply (isLocated_eat '[').bind
  intro opened
  cases opened with
  | true => exact (isLocated_require (by decide)).bind fun _ => isLocated_pure true
  | false => exact isLocated_pure false

theorem isLocated_typeArguments {inner : Unit → Advancing TypeRef}
    (innerLocated : (inner ()).toReader.IsLocated) : (typeArguments inner).IsLocated := by
  apply (isLocated_eat '<').bind
  intro opened
  cases opened with
  | true => exact isLocated_separated isLocated_skipBlanks innerLocated (by decide)
  | false => exact isLocated_pure []

theorem isLocated_tooDeep (limit : Nat) : (fail (.tooDeep limit) : Reader α).IsLocated :=
  isLocated_fail fun _ _ same => nomatch same

theorem isLocated_typeRef (limit levels : Nat) : (typeRef limit levels).toReader.IsLocated := by
  induction levels with
  | zero => exact isLocated_tooDeep limit
  | succ levels ih =>
    change (typeRefLevel fun _ => typeRef limit levels).IsLocated
    rw [typeRefLevel_eq]
    apply (isLocated_identifier (List.all_eq_true.mp (by decide))).bind
    intro name
    apply (isLocated_typeArguments ih).bind
    intro generics
    exact isLocated_listMark.bind fun _ => isLocated_pure _

theorem isLocated_assigned (value : α) : (assigned value).IsLocated := by
  apply isLocated_skipBlanks.bind
  intro _
  apply (isLocated_eat '=').bind
  intro found
  cases found with
  | true => exact isLocated_pure _
  | false => exact isLocated_pure _

theorem isLocated_optionKey? : optionKey?.IsLocated := by
  apply IsLocated.attempt
  · apply isLocated_identifier?.bind
    intro key
    cases key with
    | none => exact isLocated_pure none
    | some key => exact isLocated_assigned key
  · apply quiet_identifier?.bind
    intro key
    cases key with
    | none => exact quiet_pure none
    | some key => exact quiet_assigned key

theorem isLocated_tagItem : tagItem.IsLocated := by
  apply isLocated_optionKey?.bind
  intro key
  cases key with
  | none => exact isLocated_literal.bind fun _ => isLocated_pure _
  | some key =>
    apply isLocated_skipBlanks.bind
    intro _
    exact isLocated_literal.bind fun _ => isLocated_pure _

theorem isLocated_tagItems : tagItems.IsLocated := by
  apply (isLocated_eat '(').bind
  intro opened
  cases opened with
  | false => exact isLocated_pure []
  | true =>
    apply isLocated_skipBlanks.bind
    intro _
    apply (isLocated_eat ')').bind
    intro closed
    cases closed with
    | true => exact isLocated_pure []
    | false => exact isLocated_separated isLocated_skipBlanks isLocated_tagItem (by decide)

theorem isLocated_tagBody : tagBody.IsLocated := by
  apply (isLocated_identifier (List.all_eq_true.mp (by decide))).bind
  intro name
  exact isLocated_tagItems.bind fun _ => isLocated_pure _

/-- Tags lie on the way from one cursor to another. -/
def TagsLie (base : Cursor) (tags : List (Tag × Span)) (last : Cursor) : Prop :=
  ∀ entry ∈ tags, base.Encloses last entry.2

theorem TagsLie.until {tags : List (Tag × Span)} {first second : Cursor} (lie : TagsLie base tags first)
    (onward : first.Reaches second) : TagsLie base tags second :=
  fun entry member => (lie entry member).until onward

theorem locates_tags (reached : base.Reaches start) : tags.Locates base start (TagsLie base) := by
  apply locates_rounds (fun _ _ => True)
  · exact fun entry _ _ onward encloses => encloses.until onward
  · intro _ start reached _
    apply isLocated_skipTrivia.andThen reached
    intro _ beforeMark toMark
    have reachedMark := reached.trans toMark
    apply locates_here_bind
    apply (isLocated_eat '@').andThen reachedMark
    intro isTag afterMark overMark
    cases isTag with
    | false => exact locates_pure (List.forall_mem_nil _)
    | true =>
      apply isLocated_tagBody.andThen (reachedMark.trans overMark)
      intro tag stop overBody
      have encloses := Cursor.encloses_between reachedMark (overMark.trans overBody)
      apply locates_here_bind
      exact locates_pure ⟨List.forall_mem_singleton.mpr encloses, trivial⟩
  · exact reached
  · trivial

/-!
## Bodies
-/

theorem locates_comment? (lastCodeLine : Nat) (reached : base.Reaches start) :
    (comment? lastCodeLine).Locates base start fun found after =>
      ∀ comment, found = some comment → base.Encloses after comment.span := by
  cases starts : startsComment start.rest with
  | false =>
    apply locates_of_run (run_comment?_none lastCodeLine starts)
    rintro _ ⟨⟩
  | true =>
    obtain ⟨_, _, comment, -, ran, -⟩ := exists_run_comment? lastCodeLine starts
    obtain ⟨-, span⟩ := (ensures_comment?_span lastCodeLine start _ _ _ ran).1 comment rfl
    apply locates_of_run ran
    rintro _ ⟨⟩
    rw [span]
    exact Cursor.encloses_between reached (Cursor.reaches_atLineEnd start)

theorem isLocated_comment? (lastCodeLine : Nat) : (comment? lastCodeLine).IsLocated :=
  fun _ _ reached => (locates_comment? lastCodeLine reached).isLocated

theorem isLocated_defaultValue? : defaultValue?.IsLocated := by
  apply ((isLocated_assigned ()).attempt (quiet_assigned ())).bind
  intro assigned
  cases assigned with
  | none => exact isLocated_pure none
  | some =>
    apply isLocated_skipBlanks.bind
    intro _
    exact isLocated_literal.bind fun _ => isLocated_pure _

section

variable {types : Advancing TypeRef} {inner : Unit → Reader (List Property)}
  (typesLocated : types.toReader.IsLocated) (innerLocated : (inner ()).IsLocated)

include typesLocated innerLocated

theorem isLocated_propertyShape : (propertyShape types inner).IsLocated := by
  apply (isLocated_eat '{').bind
  intro opened
  cases opened with
  | true => exact innerLocated.bind fun _ => isLocated_pure _
  | false =>
    apply (isLocated_eat '[').bind
    intro listed
    cases listed with
    | true =>
      apply isLocated_skipBlanks.bind
      intro _
      apply (isLocated_require (by decide)).bind
      intro _
      apply innerLocated.bind
      intro properties
      apply isLocated_skipBlanks.bind
      intro _
      exact (isLocated_require (by decide)).bind fun _ => isLocated_pure _
    | false =>
      intro base start reached
      apply (locates_spanned typesLocated reached).bind
      rintro ⟨type, place⟩ after overType rfl
      apply locates_ask_bind
      · exact List.forall_mem_singleton.mpr (Cursor.encloses_between reached overType)
      · exact locates_pure trivial

theorem isLocated_property : (property types inner).IsLocated := by
  intro base start reached
  apply (locates_tags reached).bind
  intro tags afterTags overTags encloses
  have reachedName := reached.trans overTags
  apply locates_ask_bind
  · exact List.forall_mem_map.mpr encloses
  · apply (isLocated_identifier (List.all_eq_true.mp (by decide))).andThen reachedName
    intro name afterName overName
    refine (isLocated_skipBlanks.bind fun _ => ?_) base afterName (reachedName.trans overName)
    apply (isLocated_require (by decide)).bind
    intro _
    apply isLocated_skipBlanks.bind
    intro _
    apply (isLocated_propertyShape typesLocated innerLocated).bind
    intro shape
    exact isLocated_defaultValue?.bind fun _ => isLocated_pure _

theorem isLocated_propertyRound (pending : Pending) :
    (propertyRound types inner pending).IsLocated := by
  apply isLocated_skipBlanks.bind
  intro _
  apply (isLocated_comment? _).bind
  intro found
  cases found with
  | some comment => exact isLocated_pure _
  | none =>
    apply (isLocated_eat '}').bind
    intro closed
    cases closed with
    | true => exact isLocated_pure _
    | false =>
      apply (isLocated_look _).bind
      intro starts
      cases starts with
      | false => exact isLocated_unexpected (List.all_eq_true.mp (by decide))
      | true =>
        have separator : eatSeparator.IsLocated := by
          apply (isLocated_eat ',').bind
          intro comma
          cases comma with
          | true => exact isLocated_pure true
          | false => exact isLocated_eat ';'
        apply isLocated_here.bind
        intro place
        apply (isLocated_property typesLocated innerLocated).bind
        intro property
        apply isLocated_here.bind
        intro stop
        apply isLocated_skipBlanks.bind
        intro _
        apply separator.bind
        intro separated
        exact isLocated_here.bind fun _ => isLocated_pure _

end

theorem isLocated_body (limit levels : Nat) : (body limit levels).IsLocated := by
  induction levels with
  | zero => exact isLocated_tooDeep limit
  | succ levels ih =>
    apply isLocated_here.bind
    intro place
    apply isLocated_rounds
    intro pending
    exact isLocated_propertyRound (isLocated_typeRef limit (levels + 1)) ih pending

end Reader

end ApiDef
