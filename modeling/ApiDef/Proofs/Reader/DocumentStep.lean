import ApiDef.Proofs.Reader.Gap
set_option autoImplicit false

/-!
# The steps of a document

A round of a document skips blanks and then does one of three things: it ends, it keeps a comment, or it
reads a declaration. What holds of every document is shown for these steps.
-/

namespace ApiDef.Reader

open Text

/-- What a round can do where it has skipped the blanks. -/
inductive DocumentStep (grammar : Grammar) (pending : Pending) (start : Cursor) :
    Round Pending Item → Cursor → List Question → Prop where
  | ended (rest : start.rest = []) :
      DocumentStep grammar pending start (.stop (commentItems pending.comments)) start []
  | comment {slashed : Bool} {body : List Char} {comment : PendingComment}
      (starts : startsComment start.rest = true)
      (taken : start.rest.takeWhile (· ≠ '\n') = commentMark slashed ++ body)
      (facts : CommentFacts start.place.line pending.lastCodeLine slashed body comment)
      (line : comment.IsLine) (span : comment.span = ⟨start.place, start.atLineEnd.place⟩) :
      DocumentStep grammar pending start (.next [] (pending.add comment)) start.atLineEnd []
  | declaration {entity : Entity} {stop : Cursor} {asked : List Question}
      (noComment : startsComment start.rest = false) (starts : startsDeclaration start.rest = true)
      (ran : (declaration grammar).run start = .done entity stop asked) :
      DocumentStep grammar pending start
        (.next (commentItems (splitDescription start.place.line pending.comments).2
            ++ [⟨entity.describe (descriptionOf (splitDescription start.place.line pending.comments).1),
              ⟨start.place, stop.place⟩⟩])
          ⟨[], stop.place.line⟩)
        stop asked

theorem ne_nil_of_startsDeclaration {cs : List Char} (starts : startsDeclaration cs = true) : cs ≠ [] := by
  rintro rfl
  cases starts

theorem ensures_describedDeclaration_step {grammar : Grammar} {pending : Pending} {start : Cursor}
    (noComment : startsComment start.rest = false) (starts : startsDeclaration start.rest = true) :
    (describedDeclaration grammar pending).Ensures start (DocumentStep grammar pending start) := by
  refine ensures_after (run_here start) ?_
  have declared : (declaration grammar).Ensures start fun entity stop asked =>
      (declaration grammar).run start = .done entity stop asked := fun _ _ _ ran => ran
  refine declared.bind fun entity stop asked ran => ?_
  refine ensures_after (run_here stop) (ensures_pure ?_)
  rw [List.append_nil]
  exact .declaration noComment starts ran

theorem ensures_documentRound (grammar : Grammar) (pending : Pending) (start : Cursor) :
    (documentRound grammar pending).Ensures start (DocumentStep grammar pending start.landed) := by
  refine ensures_after (run_skipBlanks_landed start) (ensures_after (run_look _ _) ?_)
  cases ended : start.landed.rest.isEmpty with
  | true => exact ensures_pure (.ended (List.isEmpty_iff.mp ended))
  | false =>
    cases starts : startsComment start.landed.rest with
    | true =>
      obtain ⟨slashed, body, comment, taken, ran, facts⟩ :=
        exists_run_comment? pending.lastCodeLine starts
      obtain ⟨line, span⟩ := (ensures_comment?_span _ _ _ _ _ ran).1 comment rfl
      exact ensures_after ran (ensures_pure (.comment starts taken facts line span))
    | false =>
      refine ensures_after (run_comment?_none _ starts) (ensures_after (run_look _ _) ?_)
      cases declares : startsDeclaration start.landed.rest with
      | true => exact ensures_describedDeclaration_step starts declares
      | false => exact ensures_unexpected

/-- A document ensures of each state what each step makes of what the next state ensures. -/
theorem ensures_document_leads {grammar : Grammar}
    {good : Pending → Cursor → List Item → Cursor → Prop}
    (step : ∀ pending start result after asked,
      DocumentStep grammar pending start.landed result after asked → result.Leads good pending start after)
    (start : Cursor) :
    (document grammar).Ensures start fun items last _ => good ⟨[], 0⟩ start items last := by
  apply ensures_rounds_leads
  intro pending start
  exact (ensures_documentRound grammar pending start).mono (step pending start)

end ApiDef.Reader
