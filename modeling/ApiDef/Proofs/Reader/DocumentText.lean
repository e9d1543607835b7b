import ApiDef.Proofs.Reader.DeclarationText
set_option autoImplicit false

/-!
# Reading documents back

The rounds of a document go through its blocks. Comments wait until it is known whether they describe
a declaration; those of the layout stand a blank line above it, so they stay comments.
-/

namespace ApiDef.Reader

open Text Layout

/-- Blocks with a blank line in front of each of them. -/
def blocksText (indentation : Indentation) (entities : List Entity) : List Char :=
  entities.flatMap fun entity => '\n' :: '\n' :: (block indentation entity).toList

theorem blocksText_cons (indentation : Indentation) (entity : Entity) (others : List Entity) :
    blocksText indentation (entity :: others)
      = '\n' :: '\n' :: ((block indentation entity).toList ++ blocksText indentation others) := by
  simp [blocksText]

theorem stops_blocksText {p : Char → Bool} (stop : p '\n' = false) (indentation : Indentation)
    (entities : List Entity) : Stops p (blocksText indentation entities) := by
  cases entities with
  | nil => exact stops_nil p
  | cons entity others =>
    rw [blocksText_cons]
    exact stops_cons stop _

theorem endsType_blocksText (indentation : Indentation) (entities : List Entity) :
    EndsType (blocksText indentation entities) := by
  cases entities with
  | nil => exact endsType_nil
  | cons entity others =>
    rw [blocksText_cons]
    exact endsType_cons (by decide) _

/-- A tag, the reserved word or a name stands where a declaration starts. -/
theorem opens_declaration (indentation : Indentation) {entity : Entity}
    (notComment : entity.isComment = false) (valid : entity.isWellFormed = true) (tail : List Char) :
    Opens (entity.tags.flatMap (fun tag => tag.text.toList ++ ['\n'])
      ++ (declarationText indentation entity ++ tail)) := by
  cases entity with
  | comment text => cases notComment
  | enumeration declared =>
    simp only [Entity.isWellFormed, Bool.and_eq_true, List.all_eq_true] at valid
    have keyword : isIdentifier "enum" = true := by decide
    rw [declarationText, List.append_assoc]
    exact opens_tags valid.1.2 keyword ['\n'] _
  | dataType declared =>
    simp only [Entity.isWellFormed, Bool.and_eq_true, List.all_eq_true] at valid
    rw [declarationText, List.append_assoc]
    exact opens_tags valid.1.2 valid.1.1.1 ['\n'] _
  | method declared =>
    simp only [Entity.isWellFormed, Bool.and_eq_true, List.all_eq_true] at valid
    rw [declarationText, List.append_assoc]
    exact opens_tags valid.1.1.2 valid.1.1.1.1 ['\n'] _

theorem exists_of_isComment {entity : Entity} (isComment : entity.isComment = true) :
    ∃ text, entity = .comment text := by
  cases entity with
  | comment text => exact ⟨text, rfl⟩
  | enumeration declared => cases isComment
  | dataType declared => cases isComment
  | method declared => cases isComment

/-- A comment, a tag or a name stands at the start of a block. -/
theorem exists_of_block {indentation : Indentation} {entity : Entity} (valid : entity.isWellFormed = true)
    (tail : List Char) :
    ∃ c others, (block indentation entity).toList ++ tail = c :: others
      ∧ (c = '#' ∨ c = '/' ∨ c = '@' ∨ isIdentifierStart c = true) := by
  cases isComment : entity.isComment with
  | true =>
    obtain ⟨text, rfl⟩ := exists_of_isComment isComment
    rw [toList_comment]
    exact ⟨'#', _, rfl, .inl rfl⟩
  | false =>
    rw [toList_block isComment, above, List.append_assoc, List.append_assoc]
    cases descriptionLines entity.description? with
    | nil =>
      obtain ⟨c, others, same, starts⟩ := opens_declaration indentation isComment valid tail
      exact ⟨c, others, same, .inr (.inr starts)⟩
    | cons line lines => exact ⟨'/', _, rfl, .inr (.inl rfl)⟩

/-- Nothing stands in front of a block. -/
theorem stops_block {indentation : Indentation} {entity : Entity} (valid : entity.isWellFormed = true)
    (tail : List Char) : Stops isBlank ((block indentation entity).toList ++ tail) := by
  obtain ⟨c, others, same, hash | slash | tag | starts⟩ := exists_of_block valid tail
  · rw [same, hash]
    exact stops_cons (by decide) others
  · rw [same, slash]
    exact stops_cons (by decide) others
  · rw [same, tag]
    exact stops_cons (by decide) others
  · rw [same]
    exact stops_cons
      (not_isBlank_of_isIdentifierChar (isIdentifierChar_of_isIdentifierStart starts)) others

theorem trimStart_blocksText_cons {indentation : Indentation} {entity : Entity}
    (valid : entity.isWellFormed = true) (others : List Entity) :
    trimStart (blocksText indentation (entity :: others))
      = (block indentation entity).toList ++ blocksText indentation others := by
  rw [blocksText_cons, trimStart_lineFeed, trimStart_lineFeed]
  exact trimStart_of_stops (stops_block valid _)

theorem describe_reread {entity : Entity} (notComment : entity.isComment = false) :
    (entity.reread.describe none).describe (entity.description?.map rereadDescription)
      = entity.reread := by
  cases entity with
  | comment text => cases notComment
  | enumeration declared => rfl
  | dataType declared => rfl
  | method declared => rfl

theorem map_entity_commentItems_cons (comment : PendingComment) (comments : List PendingComment) :
    (commentItems (comment :: comments)).map Item.entity
      = (commentItems comments).map Item.entity ++ [.comment comment.text] := by
  simp [commentItems, PendingComment.item]

theorem yields_describedDeclaration {grammar : Grammar} {indentation : Indentation} {entity : Entity}
    (notComment : entity.isComment = false) (valid : entity.isWellFormed = true)
    (allowed : entity.isAllowed grammar = true) {pending : Pending} {earlier : List PendingComment}
    {start : Cursor} {tail : List Char}
    (describes : pending.Describes start.place.line
      ((descriptionLines entity.description?).map rereadLine) earlier)
    (rest : start.rest = entity.tags.flatMap (fun tag => tag.text.toList ++ ['\n'])
      ++ (declarationText indentation entity ++ tail)) (ends : EndsType tail) :
    (describedDeclaration grammar pending).Yields start (entity.nesting ≤ grammar.maxNestingDepth)
      fun result after =>
        (∃ found, result = .next found ⟨[], after.place.line⟩
          ∧ found.map Item.entity = (commentItems earlier).map Item.entity ++ [entity.reread])
        ∧ after.rest = tail := by
  have sameDescription := describes.descriptionOf_split
  have sameEarlier := describes.earlier_split
  refine yields_after (run_here start) ?_
  refine (yields_declaration notComment valid allowed rest ends).finally fun found after got => ?_
  obtain ⟨rfl, afterRest⟩ := got
  refine yields_after (run_here after) ?_
  refine yields_pure ⟨⟨_, rfl, ?_⟩, afterRest⟩
  rw [List.map_append, sameEarlier, sameDescription, List.map_singleton, describe_reread notComment]

theorem yields_declarationRound {grammar : Grammar} {indentation : Indentation} {entity : Entity}
    (notComment : entity.isComment = false) (valid : entity.isWellFormed = true)
    (allowed : entity.isAllowed grammar = true) {pending : Pending} {earlier : List PendingComment}
    {start : Cursor} {tail : List Char}
    (describes : pending.Describes start.landed.place.line
      ((descriptionLines entity.description?).map rereadLine) earlier)
    (rest : start.landed.rest = entity.tags.flatMap (fun tag => tag.text.toList ++ ['\n'])
      ++ (declarationText indentation entity ++ tail)) (ends : EndsType tail) :
    (documentRound grammar pending).Yields start (entity.nesting ≤ grammar.maxNestingDepth)
      fun result after =>
        (∃ found, result = .next found ⟨[], after.place.line⟩
          ∧ found.map Item.entity = (commentItems earlier).map Item.entity ++ [entity.reread])
        ∧ after.rest = tail := by
  have opens : Opens start.landed.rest := rest ▸ opens_declaration indentation notComment valid tail
  have goesOn : start.landed.rest.isEmpty = false := by
    obtain ⟨c, others, same, -⟩ := opens
    rw [same]
    rfl
  refine yields_after (run_skipBlanks_landed start) ?_
  refine yields_after (run_look _ _) ?_
  simp only [goesOn, Bool.false_eq_true, if_false]
  refine yields_after (run_comment?_none _ opens.solid.2) ?_
  refine yields_after (run_look _ _) ?_
  simp only [opens.startsDeclaration, if_true]
  exact yields_describedDeclaration notComment valid allowed describes rest ends

theorem yields_commentRound {grammar : Grammar} {indentation : Indentation} {text : String}
    (valid : (Entity.comment text).isWellFormed = true) {pending : Pending} {start : Cursor}
    {tail : List Char}
    (rest : start.landed.rest = (block indentation (.comment text)).toList ++ tail)
    (ends : Stops (· ≠ '\n') tail) :
    (documentRound grammar pending).Yields start True fun result after =>
      (∃ comment, result = .next [] (pending.add comment) ∧ comment.slashed = false
        ∧ comment.text = rereadLine text.toList)
      ∧ after.rest = tail ∧ after.place.line = start.landed.place.line := by
  have whole : start.landed.rest = commentMark false ++ (text.toList ++ tail) := by
    rw [rest, toList_comment]
    rfl
  have oneLine := Entity.isWellFormed_comment_iff.mp valid
  refine (takesComments_documentRound grammar whole oneLine ends).mono fun result after facts => ?_
  obtain ⟨⟨comment, same, known⟩, afterRest, afterLine⟩ := facts
  exact ⟨⟨comment, same, known.slashed, known.text⟩, afterRest, afterLine⟩

theorem yields_blocks {grammar : Grammar} {indentation : Indentation} {entities : List Entity}
    (valid : ∀ entity ∈ entities, entity.isWellFormed = true)
    (allowed : ∀ entity ∈ entities, entity.isAllowed grammar = true) {pending : Pending}
    (unslashed : ∀ comment ∈ pending.comments, comment.slashed = false) {start : Cursor}
    (rest : trimStart start.rest = trimStart (blocksText indentation entities))
    (behind : entities ≠ [] → pending.lastCodeLine < start.landed.place.line) :
    (rounds (documentRound grammar) (advances_documentRound grammar) pending).Yields start
      (∀ entity ∈ entities, entity.nesting ≤ grammar.maxNestingDepth)
      fun items _ => items.map Item.entity
        = (commentItems pending.comments).map Item.entity ++ entities.map Entity.reread := by
  -- Pending comments are none that could describe a declaration, since the layout writes comments
  -- with `#`; the last code stands above the next block.
  induction entities generalizing pending start with
  | nil =>
    have ended : start.landed.rest = [] := rest
    refine (yields_rounds_stop ?_).of_iff (iff_of_true trivial (by simp))
    refine yields_after (run_skipBlanks_landed start) ?_
    refine yields_after (run_look _ _) ?_
    rw [ended]
    exact yields_pure ⟨_, rfl, by simp⟩
  | cons entity others ih =>
    obtain ⟨validEntity, validOthers⟩ := List.forall_mem_cons.mp valid
    obtain ⟨allowedEntity, allowedOthers⟩ := List.forall_mem_cons.mp allowed
    have landedRest : start.landed.rest
        = (block indentation entity).toList ++ blocksText indentation others :=
      rest.trans (trimStart_blocksText_cons validEntity others)
    have pendingBehind := behind (List.cons_ne_nil _ _)
    cases isComment : entity.isComment with
    | true =>
      obtain ⟨text, rfl⟩ := exists_of_isComment isComment
      have fits : (True ∧ ∀ entity ∈ others, entity.nesting ≤ grammar.maxNestingDepth)
          ↔ ∀ entity ∈ Entity.comment text :: others,
            entity.nesting ≤ grammar.maxNestingDepth := by
        rw [List.forall_mem_cons]
        exact and_congr_left fun _ => iff_of_true trivial (Nat.zero_le _)
      refine (yields_rounds_next ?_).of_iff fits
      refine (yields_commentRound validEntity landedRest
        (stops_blocksText (by decide) _ _)).mono fun result after facts => ?_
      obtain ⟨⟨comment, rfl, notSlashed, sameText⟩, afterRest, afterLine⟩ := facts
      have nextUnslashed : ∀ other ∈ (pending.add comment).comments, other.slashed = false :=
        List.forall_mem_cons.mpr ⟨notSlashed, unslashed⟩
      have nextBehind : others ≠ [] → (pending.add comment).lastCodeLine < after.landed.place.line := by
        intro _
        have below := after.line_le_landed
        rw [afterLine] at below
        exact Nat.lt_of_lt_of_le pendingBehind below
      refine ⟨[], pending.add comment, rfl, ?_⟩
      refine (ih validOthers allowedOthers nextUnslashed (congrArg trimStart afterRest)
        nextBehind).mono fun items _ same => ?_
      change items.map Item.entity = _
      rw [same, Pending.add, map_entity_commentItems_cons, sameText, List.append_assoc]
      rfl
    | false =>
      rw [toList_block isComment, above, List.append_assoc, List.append_assoc] at landedRest
      have opens := opens_declaration indentation isComment validEntity (blocksText indentation others)
      refine yields_description (takesComments_documentRound grammar)
        (fun c member => absurd member List.not_mem_nil) List.not_mem_nil
        (fun line => not_mem_descriptionLines) opens.solid.1 landedRest
        (Pending.describes_none unslashed pendingBehind) fun described atDeclaration whole describes => ?_
      refine (yields_rounds_next ?_).of_iff List.forall_mem_cons.symm
      refine (yields_declarationRound isComment validEntity allowedEntity describes whole
        (endsType_blocksText indentation others)).mono fun result after facts => ?_
      obtain ⟨⟨found, rfl, same⟩, afterRest⟩ := facts
      have nextBehind : others ≠ [] → after.place.line < after.landed.place.line := by
        intro nonempty
        obtain ⟨second, later, rfl⟩ := List.exists_cons_of_ne_nil nonempty
        rw [blocksText_cons] at afterRest
        exact Cursor.line_lt_landed afterRest
      refine ⟨found, ⟨[], after.place.line⟩, rfl, ?_⟩
      refine (ih validOthers allowedOthers (fun comment member => absurd member List.not_mem_nil)
        (congrArg trimStart afterRest) nextBehind).mono fun items _ sameItems => ?_
      rw [List.map_append, same, sameItems, List.append_assoc]
      rfl

end ApiDef.Reader
