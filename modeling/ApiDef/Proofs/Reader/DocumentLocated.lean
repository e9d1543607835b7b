import ApiDef.Proofs.Reader.Located
set_option autoImplicit false

/-!
# Where declarations and items are found

Questions about a declaration are asked about its tags, its types and its signature, all of which lie in
its span.
-/

namespace ApiDef

open Text

namespace Reader

variable {base start : Cursor}

/-!
## Declarations
-/

theorem isLocated_enumeration (tags : List Tag) : (enumeration tags).IsLocated := by
  have value : ∀ state, (valueRound state).IsLocated := by
    intro _
    apply isLocated_skipTrivia.bind
    intro _
    apply (isLocated_eat '}').bind
    intro ended
    cases ended with
    | true => exact isLocated_pure _
    | false =>
      apply (isLocated_identifier (List.all_eq_true.mp (by decide))).bind
      intro name
      apply isLocated_skipTrivia.bind
      intro _
      apply (isLocated_eat '}').bind
      intro closed
      cases closed with
      | true => exact isLocated_pure _
      | false =>
        apply (isLocated_eat ',').bind
        intro comma
        cases comma with
        | true => exact isLocated_pure _
        | false => exact isLocated_unexpected (List.all_eq_true.mp (by decide))
  apply isLocated_skipTrivia.bind
  intro _
  apply (isLocated_identifier (List.all_eq_true.mp (by decide))).bind
  intro name
  apply (isLocated_ask rfl).bind
  intro _
  apply isLocated_skipTrivia.bind
  intro _
  apply (isLocated_require (by decide)).bind
  intro _
  exact (isLocated_rounds value ()).bind fun _ => isLocated_pure _

theorem locates_keywordDeclaration {grammar : Grammar} {tags : List (Tag × Span)}
    (reached : base.Reaches start) (tagsLie : TagsLie base tags start) :
    (keywordDeclaration grammar tags).Locates base start fun _ _ => True := by
  unfold keywordDeclaration
  split
  next =>
    apply (isLocated_eatText _).andThen reached
    intro _ afterWord overWord
    apply locates_ask_bind
    · exact List.forall_mem_map.mpr (tagsLie.until overWord)
    · have rest : (do
          let declared ← enumeration (tags.map Prod.fst)
          pure (Entity.enumeration declared)).IsLocated :=
        (isLocated_enumeration _).bind fun _ => isLocated_pure _
      exact rest base afterWord (reached.trans overWord)
  next =>
    have other : ∀ expected found, Fault.Cause.enumerationsForbidden ≠ .unexpected expected found :=
      fun _ _ same => nomatch same
    exact isLocated_fail other base start reached

/-- The tags of a parameter and its type lie on the way. -/
def ReadParameter.LiesIn (base : Cursor) (read : ReadParameter) (last : Cursor) : Prop :=
  TagsLie base read.tags last ∧ base.Encloses last read.typePlace

theorem ReadParameter.LiesIn.until {read : ReadParameter} {first second : Cursor}
    (lies : read.LiesIn base first) (onward : first.Reaches second) : read.LiesIn base second :=
  ⟨lies.1.until onward, lies.2.until onward⟩

theorem locates_parameters {types : Advancing TypeRef} (typesLocated : types.toReader.IsLocated)
    (reached : base.Reaches start) :
    (parameters types).Locates base start fun found after =>
      ∀ read ∈ found, read.LiesIn base after := by
  apply isLocated_skipTrivia.andThen reached
  intro _ afterGap overGap
  apply (isLocated_eat ')').andThen (reached.trans overGap)
  intro closed afterClose overClose
  cases closed with
  | true => exact locates_pure (List.forall_mem_nil _)
  | false =>
    apply locates_separated isLocated_skipTrivia (by decide)
    · exact fun read _ _ onward lies => lies.until onward
    · intro start reached
      apply (locates_tags reached).bind
      intro tags afterTags overTags tagsLie
      have reachedName := reached.trans overTags
      apply (isLocated_identifier (List.all_eq_true.mp (by decide))).andThen reachedName
      intro name afterName overName
      have reachedGap := reachedName.trans overName
      apply isLocated_skipTrivia.andThen reachedGap
      intro _ beforeColon toColon
      have reachedColon := reachedGap.trans toColon
      apply (isLocated_require (by decide)).andThen reachedColon
      intro _ afterColon overColon
      apply isLocated_skipTrivia.andThen (reachedColon.trans overColon)
      intro _ beforeType toType
      have toType := overName.trans (toColon.trans (overColon.trans toType))
      have reachedType := reachedName.trans toType
      apply (locates_spanned typesLocated reachedType).bind
      rintro ⟨type, place⟩ afterType overType rfl
      apply locates_pure
      constructor
      · exact tagsLie.until (toType.trans overType)
      · exact Cursor.encloses_between reachedType overType
    · exact (reached.trans overGap).trans overClose

theorem locates_askParameters {found : List ReadParameter}
    (lies : ∀ read ∈ found, read.LiesIn base start) :
    (askParameters found).Locates base start fun _ after => after = start := by
  induction found with
  | nil => exact locates_pure rfl
  | cons read others ih =>
    obtain ⟨tagsLie, typeLies⟩ := lies read List.mem_cons_self
    apply locates_ask_bind
    · exact List.forall_mem_map.mpr tagsLie
    · apply locates_ask_bind
      · exact List.forall_mem_singleton.mpr typeLies
      · exact ih fun other member => lies other (List.mem_cons_of_mem _ member)

theorem locates_method {limit : Nat} {tags : List (Tag × Span)} {name : String} {namePlace : Span}
    (reached : base.Reaches start) (tagsLie : TagsLie base tags start)
    (nameLies : base.Encloses start namePlace) :
    (method limit tags name namePlace).Locates base start fun _ _ => True := by
  have types := isLocated_typeRef limit (limit + 1)
  apply (locates_parameters types reached).bind
  intro found afterParameters overParameters parametersLie
  have reachedGap := reached.trans overParameters
  apply isLocated_skipTrivia.andThen reachedGap
  intro _ beforeColon toColon
  have reachedColon := reachedGap.trans toColon
  apply (isLocated_require (by decide)).andThen reachedColon
  intro _ afterColon overColon
  apply isLocated_skipTrivia.andThen (reachedColon.trans overColon)
  intro _ beforeType toType
  have toType := toColon.trans (overColon.trans toType)
  have reachedType := reachedGap.trans toType
  apply (locates_spanned types reachedType).bind
  rintro ⟨returnType, returnPlace⟩ afterType overType rfl
  have onward := toType.trans overType
  have parametersLie : ∀ read ∈ found, read.LiesIn base afterType :=
    fun read member => (parametersLie read member).until onward
  apply locates_ask_bind
  · exact List.forall_mem_map.mpr (tagsLie.until (overParameters.trans onward))
  · apply (locates_askParameters parametersLie).bind
    intro _ _ _ same
    rw [same]
    apply locates_ask_bind
    · exact List.forall_mem_singleton.mpr (Cursor.encloses_between reachedType overType)
    · dsimp only
      split
      next =>
        -- The route goes from the name to the type behind it.
        have returnLies : beforeType.Encloses afterType ⟨beforeType.place, afterType.place⟩ :=
          Cursor.encloses_between (.refl beforeType) overType
        have routeLies := (nameLies.until (overParameters.trans toType)).merge returnLies
        apply locates_ask_bind
        · exact List.forall_mem_singleton.mpr routeLies
        · exact locates_pure trivial
      next => exact locates_pure trivial

theorem locates_dataTypeBehindName {grammar : Grammar} {tags : List (Tag × Span)} {name : String}
    {namePlace : Span} (reached : base.Reaches start) (tagsLie : TagsLie base tags start)
    (nameLies : base.Encloses start namePlace) :
    (dataTypeBehindName grammar tags name namePlace).Locates base start fun _ _ => True := by
  unfold dataTypeBehindName
  split
  next =>
    apply locates_ask_bind
    · exact List.forall_mem_map.mpr tagsLie
    · apply (isLocated_ask rfl).andThen reached
      intro _ beforeBrace toBrace
      have reachedBrace := reached.trans toBrace
      apply (isLocated_require (by decide)).andThen reachedBrace
      intro _ afterBrace overBrace
      apply (isLocated_body _ _).andThen (reachedBrace.trans overBrace)
      exact fun _ _ _ => locates_pure trivial
  next =>
    apply locates_failAt ⟨_, nameLies⟩
    rintro expected found ⟨⟩

theorem locates_methodBehindName {grammar : Grammar} {tags : List (Tag × Span)} {name : String}
    {namePlace : Span} (reached : base.Reaches start) (tagsLie : TagsLie base tags start)
    (nameLies : base.Encloses start namePlace) :
    (methodBehindName grammar tags name namePlace).Locates base start fun _ _ => True := by
  unfold methodBehindName
  split
  next =>
    apply (isLocated_require (by decide)).andThen reached
    intro _ afterParenthesis passed
    apply (locates_method (reached.trans passed) (tagsLie.until passed) (nameLies.until passed)).bind
    exact fun _ _ _ _ => locates_pure trivial
  next =>
    apply locates_failAt ⟨_, nameLies⟩
    rintro expected found ⟨⟩

theorem locates_namedDeclaration {grammar : Grammar} {tags : List (Tag × Span)}
    (reached : base.Reaches start) (tagsLie : TagsLie base tags start) :
    (namedDeclaration grammar tags).Locates base start fun _ _ => True := by
  have nameLocated : (identifier [.mark "@", .mark "enum"]).IsLocated :=
    isLocated_identifier (List.all_eq_true.mp (by decide))
  rw [namedDeclaration_eq]
  apply (locates_spanned nameLocated reached).bind
  rintro ⟨name, namePlace⟩ afterName overName rfl
  have reachedGap := reached.trans overName
  have nameLies := Cursor.encloses_between reached overName
  apply isLocated_skipTrivia.andThen reachedGap
  intro _ beforeBracket toBracket
  have reachedBracket := reachedGap.trans toBracket
  have tagsLie := tagsLie.until (overName.trans toBracket)
  have nameLies := nameLies.until toBracket
  apply (isLocated_look _).andThen reachedBracket
  intro opensBody afterLook still
  have reachedBracket := reachedBracket.trans still
  cases opensBody with
  | true =>
    exact locates_dataTypeBehindName reachedBracket (tagsLie.until still) (nameLies.until still)
  | false =>
    apply (isLocated_look _).andThen reachedBracket
    intro opensParameters beforeParenthesis further
    have onward := still.trans further
    have reachedParenthesis := reachedBracket.trans further
    cases opensParameters with
    | true =>
      exact locates_methodBehindName reachedParenthesis (tagsLie.until onward) (nameLies.until onward)
    | false => exact locates_unexpected (List.all_eq_true.mp (by decide)) reachedParenthesis

theorem isLocated_declaration (grammar : Grammar) : (declaration grammar).IsLocated := by
  intro base start reached
  apply (locates_tags reached).bind
  intro tags afterTags overTags tagsLie
  have reachedName := reached.trans overTags
  apply (isLocated_look _).andThen reachedName
  intro isEnumeration beforeName toName
  have tagsLie := tagsLie.until toName
  cases isEnumeration with
  | true => exact locates_keywordDeclaration (reachedName.trans toName) tagsLie
  | false => exact locates_namedDeclaration (reachedName.trans toName) tagsLie

/-!
## Documents
-/

/-- The comments that are pending lie on the way. -/
def Pending.LiesIn (base : Cursor) (pending : Pending) (last : Cursor) : Prop :=
  ∀ comment ∈ pending.comments, base.Encloses last comment.span

theorem lies_commentItems {comments : List PendingComment} {last : Cursor}
    (lie : ∀ comment ∈ comments, base.Encloses last comment.span) :
    ∀ item ∈ commentItems comments, base.Encloses last item.span := by
  intro item member
  obtain ⟨comment, inComments, rfl⟩ := List.mem_map.mp member
  exact lie comment (List.mem_reverse.mp inComments)

/-- What a round of a document finds, and what is pending behind it, lies on the way. -/
def RoundLies (base : Cursor) (result : Round Pending Item) (last : Cursor) : Prop :=
  result.Meets (·.LiesIn base last) fun items => ∀ item ∈ items, base.Encloses last item.span

theorem locates_describedDeclaration {grammar : Grammar} {pending : Pending}
    (reached : base.Reaches start) (lies : pending.LiesIn base start) :
    (describedDeclaration grammar pending).Locates base start (RoundLies base) := by
  apply locates_here_bind
  dsimp only
  apply (isLocated_declaration grammar).andThen reached
  intro entity stop overDeclaration
  apply locates_here_bind
  apply locates_pure
  constructor
  · intro item member
    rcases List.mem_append.mp member with member | member
    · apply lies_commentItems _ item member
      intro comment inOthers
      exact (lies comment (mem_of_mem_splitDescription inOthers)).until overDeclaration
    · rw [List.mem_singleton.mp member]
      exact Cursor.encloses_between reached overDeclaration
  · exact List.forall_mem_nil _

theorem locates_documentRound {grammar : Grammar} {pending : Pending} (reached : base.Reaches start)
    (lies : pending.LiesIn base start) :
    (documentRound grammar pending).Locates base start (RoundLies base) := by
  apply isLocated_skipBlanks.andThen reached
  intro _ afterBlanks overBlanks
  have reachedCode := reached.trans overBlanks
  apply (isLocated_look _).andThen reachedCode
  intro ended beforeCode toCode
  have reachedCode := reachedCode.trans toCode
  have lies : pending.LiesIn base beforeCode :=
    fun comment member => (lies comment member).until (overBlanks.trans toCode)
  cases ended with
  | true => exact locates_pure (lies_commentItems lies)
  | false =>
    apply (locates_comment? pending.lastCodeLine reachedCode).bind
    intro found afterComment overComment spanLies
    have lies : pending.LiesIn base afterComment :=
      fun comment member => (lies comment member).until overComment
    have reachedRest := reachedCode.trans overComment
    cases found with
    | some comment =>
      apply locates_pure
      constructor
      · exact List.forall_mem_nil _
      · exact List.forall_mem_cons.mpr ⟨spanLies comment rfl, lies⟩
    | none =>
      apply (isLocated_look _).andThen reachedRest
      intro starts beforeDeclaration toDeclaration
      have reachedDeclaration := reachedRest.trans toDeclaration
      cases starts with
      | false => exact locates_unexpected (List.all_eq_true.mp (by decide)) reachedDeclaration
      | true =>
        apply locates_describedDeclaration reachedDeclaration
        exact fun comment member => (lies comment member).until toDeclaration

/-- The items of a document, and the places asked about in it, lie on the way through it. -/
theorem locates_document (grammar : Grammar) (start : Cursor) :
    (document grammar).Locates start start fun items after =>
      ∀ item ∈ items, start.Encloses after item.span := by
  apply locates_rounds (fun pending last => pending.LiesIn start last)
  · exact fun item _ _ onward lies => lies.until onward
  · exact fun pending cursor reached lies => locates_documentRound reached lies
  · exact .refl start
  · exact List.forall_mem_nil _

end Reader

end ApiDef
