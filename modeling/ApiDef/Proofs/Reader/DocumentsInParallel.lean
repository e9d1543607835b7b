import ApiDef.Proofs.Reader.DeclarationsInParallel
set_option autoImplicit false

/-!
# Documents in parallel

If nothing stands behind a text, its document is read alike from the respelled text: the same entities,
with spans that are moved with the text. Only the span of a comment may grow, by a carriage return.
-/

namespace ApiDef

open Text

/-- An item of the respelled text. -/
structure Item.Follows (spelling : Respelling) (item again : Item) : Prop where
  entity : again.entity = item.entity
  start : again.span.start = item.span.start.down spelling.lines
  stopLine : again.span.stop.line = item.span.stop.line + spelling.lines
  /-- Only comments grow. -/
  span : spelling.returns = false ∨ item.entity.isComment = false → again.span = item.span.down spelling.lines

namespace Reader

variable {α β : Type} {spelling : Respelling}

/-- Without a text behind the first one the second reader is never lost. -/
theorem InParallel.of_ended {pre : Cursor → Cursor → Prop} {lost loses : α → Cursor → Prop}
    {post : α → β → Cursor → Cursor → Prop} {reader : Reader α} {again : Reader β}
    (ended : spelling.tail = []) (parallel : InParallel spelling pre lost post reader again) :
    InParallel spelling pre loses post reader again := by
  intro start other holds
  have here := parallel start other holds
  generalize reader.run start = outcome at here ⊢
  generalize again.run other = outcomeAgain at here ⊢
  cases here with
  | done holds => exact .done holds
  | failed recurs => exact .failed recurs
  | lost goesOn => exact absurd ended goesOn
  | cut goesOn => exact absurd ended goesOn

theorem PendingComment.Follows.item {comment again : PendingComment}
    (follows : comment.Follows spelling again) :
    comment.item.Follows spelling again.item := by
  constructor
  · exact congrArg Entity.comment follows.text
  · exact follows.start
  · exact follows.stopLine
  · rintro (plain | declared)
    · have start := follows.start
      have stop := follows.stop plain
      rw [PendingComment.item, PendingComment.item, Span.down, ← start, ← stop]
    · cases declared

theorem follows_commentItems {comments again : List PendingComment}
    (follow : List.Forall₂ (PendingComment.Follows spelling) comments again) :
    List.Forall₂ (Item.Follows spelling) (commentItems comments) (commentItems again) := by
  rw [commentItems, commentItems, List.forall₂_map_left_iff, List.forall₂_map_right_iff]
  exact (List.forall₂_reverse_iff.mpr follow).imp fun _ _ here => here.item

variable (grammar : Grammar) {pending again : Pending}

theorem inParallel_describedDeclaration {loses : Round Pending Item → Cursor → Prop}
    (follows : pending.Follows spelling again) :
    InParallel spelling spelling.Aligned loses
      (Round.InStep spelling (List.Forall₂ (Item.Follows spelling)) (Pending.Follows spelling))
      (describedDeclaration grammar pending) (describedDeclaration grammar again) := by
  apply inParallel_here.andThen
  rintro start _ rfl
  obtain ⟨describing, others⟩ := follows_splitDescription follows.comments start.line
  apply (alike_declaration grammar).andThen
  intro entity
  apply inParallel_here.andThen
  rintro stop _ rfl
  apply inParallel_pure
  intro _ _ aligned
  have declared : Item.Follows spelling
      ⟨entity.describe (descriptionOf (splitDescription start.line pending.comments).1), ⟨start, stop⟩⟩
      ⟨entity.describe (descriptionOf (splitDescription (start.line + spelling.lines) again.comments).1),
        ⟨start.down spelling.lines, stop.down spelling.lines⟩⟩ := by
    rw [descriptionOf_follows describing]
    exact ⟨rfl, rfl, rfl, fun _ => rfl⟩
  exact ⟨⟨List.rel_append (follows_commentItems others) (.cons declared .nil), .nil, rfl⟩, .aligned aligned⟩

/-- At the end of the first text, the second one may go on. -/
theorem inParallel_look_isEmpty :
    InParallel spelling spelling.Aligned (fun isOver after => isOver = true ∧ after.rest = [])
      (Both spelling Eq) (look List.isEmpty) (look List.isEmpty) := by
  intro start other aligned
  rw [run_look, run_look, aligned.rest]
  rcases spelling.text_cases start.rest with ⟨c, others, rest, -, same⟩ | -
  · rw [same, rest]
    exact .done ⟨rfl, aligned⟩
  · cases rest : start.rest with
    | cons c others =>
      have written : (spelling.text (c :: others)).isEmpty = false := by
        rw [Respelling.text, Respelling.chars, List.flatMap_cons, Respelling.char]
        split <;> rfl
      rw [written]
      exact .done ⟨rfl, aligned⟩
    | nil =>
      by_cases ended : spelling.tail = []
      · have nothing : (spelling.text []).isEmpty = true := by
          rw [Respelling.text, ended]
          rfl
        rw [nothing]
        exact .done ⟨rfl, aligned⟩
      · exact .lost ended ⟨rfl, rest⟩

/-- The last round of the first text need not be the last one of the second text. -/
def lastRound (result : Round Pending Item) (after : Cursor) : Prop :=
  ¬result.GoesOn ∧ after.rest = []

theorem inParallel_documentRound (follows : pending.Follows spelling again) :
    InParallel spelling spelling.Near lastRound
      (Round.InStep spelling (List.Forall₂ (Item.Follows spelling)) (Pending.Follows spelling))
      (documentRound grammar pending) (documentRound grammar again) := by
  apply inParallel_skipBlanks.bindBoth
  · intro _ after ended
    refine ensures_after (run_look List.isEmpty after) ?_
    rw [show after.rest = [] from ended]
    exact ensures_pure ⟨id, ended⟩
  · intro _ _ _
    apply inParallel_look_isEmpty.bindBoth
    · rintro _ after ⟨rfl, ended⟩
      exact ensures_pure ⟨id, ended⟩
    · rintro isOver _ rfl
      cases isOver with
      | true => exact inParallel_pure fun _ _ aligned => ⟨follows_commentItems follows.comments, aligned⟩
      | false =>
        apply (inParallel_comment? follows.lastCodeLine).bind
        · exact fun _ _ lost => lost.elim
        · rintro found copy start other ⟨same, behind⟩
          cases same with
          | some here => exact .done ⟨⟨.nil, .cons here follows.comments, follows.lastCodeLine⟩, behind⟩
          | none =>
            revert start other
            apply alike_startsDeclaration.andThen
            intro starts
            cases starts with
            | true => exact inParallel_describedDeclaration grammar follows
            | false => exact inParallel_unexpected

/-- The rest of a document, behind the comments that are pending. -/
def documentFrom (pending : Pending) : Reader (List Item) :=
  rounds (documentRound grammar) (advances_documentRound grammar) pending

/-- Whatever comments are pending, the rest of a document is read alike. -/
theorem inParallel_documentFrom (ended : spelling.tail = []) (follows : pending.Follows spelling again) :
    InParallel spelling spelling.Near never (Both spelling (List.Forall₂ (Item.Follows spelling)))
      (documentFrom grammar pending) (documentFrom grammar again) := by
  apply inParallel_rounds_never (Pending.Follows spelling)
  · exact fun _ _ _ _ here there => List.rel_append here there
  · intro pending again follows
    exact (inParallel_documentRound grammar follows).of_ended ended
  · exact follows

end Reader

end ApiDef
