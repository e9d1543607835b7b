import ApiDef.Proofs.Token.Comments
set_option autoImplicit false

/-!
# Readers and tokens in step

Wherever a reader stops, the tokens of the text are cut as they would be if the text started there:
a reader never stops inside a string or a comment. So the comments of a text are those that a reader
has passed over, followed by those of the text that it leaves.
-/

namespace ApiDef

open Text

/-!
## Cursors
-/

/-- The second cursor is further on, and the comments from the first one on are some that start between
the two and those from the second one on. -/
structure Cursor.InStep (first second : Cursor) : Prop where
  reaches : first.Reaches second
  comments : ∃ passed, first.comments = passed ++ second.comments
    ∧ ∀ comment ∈ passed, comment.1.before first.place = false ∧ comment.1.before second.place = true

namespace Cursor

variable {first second third : Cursor}

theorem inStep_of_comments_eq (reaches : first.Reaches second)
    (same : second.comments = first.comments) : first.InStep second :=
  ⟨reaches, [], same.symm, List.forall_mem_nil _⟩

theorem InStep.refl (cursor : Cursor) : cursor.InStep cursor :=
  inStep_of_comments_eq (.refl cursor) rfl

theorem InStep.trans (here : first.InStep second) (there : second.InStep third) :
    first.InStep third := by
  obtain ⟨reachesHere, passedHere, sameHere, betweenHere⟩ := here
  obtain ⟨reachesThere, passedThere, sameThere, betweenThere⟩ := there
  refine ⟨reachesHere.trans reachesThere, passedHere ++ passedThere, ?_, ?_⟩
  · rw [sameHere, sameThere, List.append_assoc]
  · intro comment member
    rcases List.mem_append.mp member with inside | inside
    · obtain ⟨after, within⟩ := betweenHere comment inside
      exact ⟨after, Position.before_of_before_of_not_before within reachesThere.not_before⟩
    · obtain ⟨after, within⟩ := betweenThere comment inside
      exact ⟨Position.not_before_trans reachesHere.not_before after, within⟩

theorem inStep_pass {cursor : Cursor} {passed rest : List Char} (whole : cursor.rest = passed ++ rest)
    (inert : ∀ c ∈ passed, Token.isInert c = true) : cursor.InStep (cursor.pass passed rest) :=
  inStep_of_comments_eq (reaches_pass whole.symm) (comments_pass whole inert)

theorem before_atLineEnd {cursor : Cursor} (starts : startsComment cursor.rest = true) :
    cursor.place.before cursor.atLineEnd.place = true := by
  obtain ⟨c, cs, rest, notLineFeed⟩ := Reader.exists_of_startsComment starts
  apply Position.before_advanceOver
  simp [rest, notLineFeed]

theorem inStep_atLineEnd {cursor : Cursor} (starts : startsComment cursor.rest = true) :
    cursor.InStep cursor.atLineEnd := by
  refine ⟨reaches_atLineEnd cursor, [_], comments_of_startsComment starts, ?_⟩
  exact List.forall_mem_singleton.mpr ⟨Position.before_self _, before_atLineEnd starts⟩

end Cursor

/-!
## Ways to put readers together
-/

namespace Reader

variable {α β σ : Type}

/-- The reader stops in step with the tokens. -/
def KeepsStep (reader : Reader α) : Prop :=
  ∀ start, reader.Ensures start fun _ after _ => start.InStep after

theorem keepsStep_of_still {reader : Reader α}
    (still : ∀ start, reader.Ensures start fun _ after _ => after = start) : reader.KeepsStep :=
  fun start => (still start).mono fun _ _ _ same => same ▸ .refl start

theorem KeepsStep.bind {first : Reader α} {next : α → Reader β} (firstKeeps : first.KeepsStep)
    (nextKeeps : ∀ value, (next value).KeepsStep) : (first >>= next).KeepsStep :=
  fun start => (firstKeeps start).bind fun value after _ here =>
    (nextKeeps value after).mono fun _ _ _ there => here.trans there

theorem keepsStep_pure (value : α) : (pure value : Reader α).KeepsStep :=
  fun start => ensures_pure (.refl start)

theorem keepsStep_fail (cause : Fault.Cause) : (fail cause : Reader α).KeepsStep :=
  fun _ => ensures_fail

theorem keepsStep_failAt (place : Span) (cause : Fault.Cause) :
    (failAt place cause : Reader α).KeepsStep :=
  fun _ => ensures_failAt

theorem keepsStep_unexpected (expected : List Expected) :
    (unexpected expected : Reader α).KeepsStep :=
  fun _ => ensures_unexpected

theorem keepsStep_ask (question : Question) : (ask question).KeepsStep := by
  refine keepsStep_of_still fun start value after asked ran => ?_
  exact (Outcome.done.inj ran).2.1.symm

theorem keepsStep_here : here.KeepsStep := by
  refine keepsStep_of_still fun start value after asked ran => ?_
  exact (Outcome.done.inj ran).2.1.symm

theorem keepsStep_look (f : List Char → α) : (look f).KeepsStep := by
  refine keepsStep_of_still fun start value after asked ran => ?_
  exact (Outcome.done.inj ran).2.1.symm

theorem keepsStep_takeWhile {p : Char → Bool} (inert : ∀ c, p c = true → Token.isInert c = true) :
    (takeWhile p).KeepsStep := by
  intro start value after asked ran
  obtain ⟨-, rfl, -⟩ := Outcome.done.inj ran
  refine Cursor.inStep_pass List.takeWhile_append_dropWhile.symm fun c member => ?_
  exact inert c (List.all_eq_true.mp List.all_takeWhile c member)

theorem keepsStep_eatText {text : List Char} (inert : ∀ c ∈ text, Token.isInert c = true) :
    (eatText text).KeepsStep := by
  intro start value after asked ran
  simp only [eatText] at ran
  split at ran
  next found =>
    obtain ⟨-, rfl, -⟩ := Outcome.done.inj ran
    obtain ⟨rest, whole⟩ := List.isPrefixOf_iff_prefix.mp found
    refine Cursor.inStep_pass ?_ inert
    rw [← whole, List.drop_left]
  next =>
    obtain ⟨-, rfl, -⟩ := Outcome.done.inj ran
    exact .refl start

theorem keepsStep_eat {c : Char} (inert : Token.isInert c = true) : (eat c).KeepsStep :=
  keepsStep_eatText (List.forall_mem_singleton.mpr inert)

theorem keepsStep_require {c : Char} (inert : Token.isInert c = true) : (require c).KeepsStep := by
  refine (keepsStep_eat inert).bind fun found => ?_
  split
  · exact keepsStep_pure ()
  · exact keepsStep_unexpected _

theorem KeepsStep.attempt {reader : Reader (Option α)} (keeps : reader.KeepsStep) :
    (Reader.attempt reader).KeepsStep := by
  intro start value after asked ran
  simp only [Reader.attempt] at ran
  split at ran
  next =>
    obtain ⟨-, rfl, -⟩ := Outcome.done.inj ran
    exact .refl start
  next => exact keeps start _ _ _ ran

theorem keepsStep_rounds {step : σ → Reader (Round σ β)}
    {advances : ∀ state, (step state).Advances Round.GoesOn}
    (keeps : ∀ state, (step state).KeepsStep) (state : σ) : (rounds step advances state).KeepsStep := by
  have leads : ∀ state start, (step state).Ensures start fun result after _ =>
      result.Leads (fun _ first _ last => first.InStep last) state start after := by
    intro state start
    refine (keeps state start).mono fun result after _ here => ?_
    cases result with
    | stop => exact here
    | next => exact fun _ _ there => here.trans there
  exact fun start => ensures_rounds_leads leads state start

/-!
## Words and gaps
-/

theorem keepsStep_skipBlanks : skipBlanks.KeepsStep :=
  (keepsStep_takeWhile fun _ => Token.isInert_of_isBlank).bind fun _ => keepsStep_pure ()

theorem keepsStep_skipComment : skipComment.KeepsStep := by
  intro start value after asked ran
  simp only [skipComment] at ran
  split at ran
  next starts =>
    obtain ⟨-, rfl, -⟩ := Outcome.done.inj ran
    exact Cursor.inStep_atLineEnd starts
  next =>
    obtain ⟨-, rfl, -⟩ := Outcome.done.inj ran
    exact .refl start

theorem keepsStep_skipTrivia : skipTrivia.KeepsStep := by
  refine (keepsStep_rounds (fun _ => ?_) ()).bind fun _ => keepsStep_pure ()
  refine keepsStep_skipBlanks.bind fun _ => keepsStep_skipComment.bind fun found => ?_
  split <;> exact keepsStep_pure _

theorem keepsStep_identifier? : identifier?.KeepsStep := by
  intro start value after asked ran
  simp only [identifier?] at ran
  split at ran
  next =>
    obtain ⟨-, rfl, -⟩ := Outcome.done.inj ran
    refine Cursor.inStep_pass List.takeWhile_append_dropWhile.symm fun c member => ?_
    exact Token.isInert_of_isIdentifierChar (List.all_eq_true.mp List.all_takeWhile c member)
  next =>
    obtain ⟨-, rfl, -⟩ := Outcome.done.inj ran
    exact .refl start

theorem keepsStep_identifier (also : List Expected) : (identifier also).KeepsStep := by
  refine keepsStep_identifier?.bind fun found => ?_
  cases found with
  | some name => exact keepsStep_pure name
  | none => exact keepsStep_unexpected _

theorem keepsStep_literal : literal.KeepsStep := by
  intro start value after asked ran
  have forward := literal.forward ran
  simp only [literal] at ran
  split at ran
  next found =>
    obtain ⟨-, rfl, -⟩ := Outcome.done.inj ran
    exact Cursor.inStep_of_comments_eq forward (Cursor.comments_pass_literal found)
  next => cases ran

theorem keepsStep_separated {gap : Reader Unit} {item : Advancing α} {close : Char}
    (gapKeeps : gap.KeepsStep) (itemKeeps : item.toReader.KeepsStep)
    (closeInert : Token.isInert close = true) : (separated gap item close).KeepsStep := by
  refine keepsStep_rounds (fun _ => ?_) ()
  refine gapKeeps.bind fun _ => itemKeeps.bind fun value => gapKeeps.bind fun _ => ?_
  refine (keepsStep_eat closeInert).bind fun closed => ?_
  split
  · exact keepsStep_pure _
  · refine (keepsStep_eat (by decide)).bind fun comma => ?_
    split
    · exact keepsStep_pure _
    · exact keepsStep_unexpected _

theorem keepsStep_spanned {reader : Reader α} (keeps : reader.KeepsStep) :
    (spanned reader).KeepsStep :=
  keepsStep_here.bind fun _ => keeps.bind fun _ => keepsStep_here.bind fun _ => keepsStep_pure _

/-!
## Types and tags
-/

theorem keepsStep_listMark : listMark.KeepsStep := by
  refine (keepsStep_eat (by decide)).bind fun found => ?_
  split
  · exact (keepsStep_require (by decide)).bind fun _ => keepsStep_pure true
  · exact keepsStep_pure false

theorem keepsStep_typeArguments {inner : Unit → Advancing TypeRef}
    (innerKeeps : (inner ()).toReader.KeepsStep) : (typeArguments inner).KeepsStep := by
  refine (keepsStep_eat (by decide)).bind fun opened => ?_
  split
  · exact keepsStep_separated keepsStep_skipBlanks innerKeeps (by decide)
  · exact keepsStep_pure []

theorem keepsStep_typeRef (limit levels : Nat) : (typeRef limit levels).toReader.KeepsStep := by
  induction levels with
  | zero => exact keepsStep_fail _
  | succ levels ih =>
    change (typeRefLevel fun _ => typeRef limit levels).KeepsStep
    rw [typeRefLevel_eq]
    exact (keepsStep_identifier []).bind fun _ => (keepsStep_typeArguments ih).bind fun _ =>
      keepsStep_listMark.bind fun _ => keepsStep_pure _

theorem keepsStep_assigned (value : α) : (assigned value).KeepsStep := by
  refine keepsStep_skipBlanks.bind fun _ => (keepsStep_eat (by decide)).bind fun found => ?_
  split <;> exact keepsStep_pure _

theorem keepsStep_optionKey? : optionKey?.KeepsStep := by
  refine (keepsStep_identifier?.bind fun key => ?_).attempt
  cases key with
  | none => exact keepsStep_pure none
  | some key => exact keepsStep_assigned key

theorem keepsStep_tagItem : tagItem.KeepsStep := by
  refine keepsStep_optionKey?.bind fun key => ?_
  cases key with
  | some key =>
    exact keepsStep_skipBlanks.bind fun _ => keepsStep_literal.bind fun _ => keepsStep_pure _
  | none => exact keepsStep_literal.bind fun _ => keepsStep_pure _

theorem keepsStep_tagItems : tagItems.KeepsStep := by
  refine (keepsStep_eat (by decide)).bind fun opened => ?_
  split
  · refine keepsStep_skipBlanks.bind fun _ => (keepsStep_eat (by decide)).bind fun closed => ?_
    split
    · exact keepsStep_pure []
    · exact keepsStep_separated keepsStep_skipBlanks keepsStep_tagItem (by decide)
  · exact keepsStep_pure []

theorem keepsStep_tags : tags.KeepsStep := by
  have body : tagBody.KeepsStep :=
    (keepsStep_identifier []).bind fun _ => keepsStep_tagItems.bind fun _ => keepsStep_pure _
  refine keepsStep_rounds (fun _ => ?_) ()
  refine keepsStep_skipTrivia.bind fun _ => keepsStep_here.bind fun _ => ?_
  refine (keepsStep_eat (by decide)).bind fun found => ?_
  split
  · exact body.bind fun _ => keepsStep_here.bind fun _ => keepsStep_pure _
  · exact keepsStep_pure _

/-!
## Bodies
-/

theorem keepsStep_comment? (lastCodeLine : Nat) : (comment? lastCodeLine).KeepsStep := by
  intro start value after asked ran
  cases starts : startsComment start.rest with
  | true =>
    obtain ⟨_, _, _, -, read, -⟩ := exists_run_comment? lastCodeLine starts
    rw [read] at ran
    obtain ⟨-, rfl, -⟩ := Outcome.done.inj ran
    exact Cursor.inStep_atLineEnd starts
  | false =>
    rw [run_comment?_none lastCodeLine starts] at ran
    obtain ⟨-, rfl, -⟩ := Outcome.done.inj ran
    exact .refl start

theorem keepsStep_defaultValue? : defaultValue?.KeepsStep := by
  refine (keepsStep_assigned ()).attempt.bind fun assigned => ?_
  cases assigned with
  | none => exact keepsStep_pure none
  | some =>
    exact keepsStep_skipBlanks.bind fun _ => keepsStep_literal.bind fun _ => keepsStep_pure _

section

variable {types : Advancing TypeRef} {inner : Unit → Reader (List Property)}

theorem keepsStep_propertyShape (typesKeep : types.toReader.KeepsStep)
    (innerKeeps : (inner ()).KeepsStep) : (propertyShape types inner).KeepsStep := by
  refine (keepsStep_eat (by decide)).bind fun opened => ?_
  split
  · exact innerKeeps.bind fun _ => keepsStep_pure _
  · refine (keepsStep_eat (by decide)).bind fun listed => ?_
    split
    · exact keepsStep_skipBlanks.bind fun _ => (keepsStep_require (by decide)).bind fun _ =>
        innerKeeps.bind fun _ => keepsStep_skipBlanks.bind fun _ =>
          (keepsStep_require (by decide)).bind fun _ => keepsStep_pure _
    · exact (keepsStep_spanned typesKeep).bind fun _ => (keepsStep_ask _).bind fun _ =>
        keepsStep_pure _

theorem keepsStep_property (typesKeep : types.toReader.KeepsStep)
    (innerKeeps : (inner ()).KeepsStep) : (property types inner).KeepsStep :=
  keepsStep_tags.bind fun _ => (keepsStep_ask _).bind fun _ => (keepsStep_identifier _).bind fun _ =>
    keepsStep_skipBlanks.bind fun _ => (keepsStep_require (by decide)).bind fun _ =>
      keepsStep_skipBlanks.bind fun _ => (keepsStep_propertyShape typesKeep innerKeeps).bind fun _ =>
        keepsStep_defaultValue?.bind fun _ => keepsStep_pure _

theorem keepsStep_eatSeparator : eatSeparator.KeepsStep := by
  refine (keepsStep_eat (by decide)).bind fun comma => ?_
  split
  · exact keepsStep_pure true
  · exact keepsStep_eat (by decide)

theorem keepsStep_propertyRound (typesKeep : types.toReader.KeepsStep)
    (innerKeeps : (inner ()).KeepsStep) (pending : Pending) :
    (propertyRound types inner pending).KeepsStep := by
  refine keepsStep_skipBlanks.bind fun _ => (keepsStep_comment? _).bind fun found => ?_
  cases found with
  | some comment => exact keepsStep_pure _
  | none =>
    refine (keepsStep_eat (by decide)).bind fun closed => ?_
    split
    · exact keepsStep_pure _
    · refine (keepsStep_look _).bind fun starts => ?_
      split
      · exact keepsStep_here.bind fun _ => (keepsStep_property typesKeep innerKeeps).bind fun _ =>
          keepsStep_here.bind fun _ => keepsStep_skipBlanks.bind fun _ =>
            keepsStep_eatSeparator.bind fun _ => keepsStep_here.bind fun _ => keepsStep_pure _
      · exact keepsStep_unexpected _

end

theorem keepsStep_body (limit levels : Nat) : (body limit levels).KeepsStep := by
  induction levels with
  | zero => exact keepsStep_fail _
  | succ levels ih =>
    refine keepsStep_here.bind fun _ => keepsStep_rounds (fun pending => ?_) _
    exact keepsStep_propertyRound (keepsStep_typeRef limit (levels + 1)) ih pending

/-!
## Declarations
-/

theorem keepsStep_enumeration (tags : List Tag) : (enumeration tags).KeepsStep := by
  have value : ∀ state, (valueRound state).KeepsStep := by
    intro _
    refine keepsStep_skipTrivia.bind fun _ => (keepsStep_eat (by decide)).bind fun ended => ?_
    split
    · exact keepsStep_pure _
    · refine (keepsStep_identifier _).bind fun name => keepsStep_skipTrivia.bind fun _ =>
        (keepsStep_eat (by decide)).bind fun closed => ?_
      split
      · exact keepsStep_pure _
      · refine (keepsStep_eat (by decide)).bind fun comma => ?_
        split
        · exact keepsStep_pure _
        · exact keepsStep_unexpected _
  exact keepsStep_skipTrivia.bind fun _ => (keepsStep_identifier []).bind fun _ =>
    (keepsStep_ask _).bind fun _ => keepsStep_skipTrivia.bind fun _ =>
      (keepsStep_require (by decide)).bind fun _ => (keepsStep_rounds value ()).bind fun _ =>
        keepsStep_pure _

theorem keepsStep_parameters {types : Advancing TypeRef} (typesKeep : types.toReader.KeepsStep) :
    (parameters types).KeepsStep := by
  have one : (parameter types).KeepsStep :=
    keepsStep_tags.bind fun _ => (keepsStep_identifier _).bind fun _ =>
      keepsStep_skipTrivia.bind fun _ => (keepsStep_require (by decide)).bind fun _ =>
        keepsStep_skipTrivia.bind fun _ => (keepsStep_spanned typesKeep).bind fun _ =>
          keepsStep_pure _
  refine keepsStep_skipTrivia.bind fun _ => (keepsStep_eat (by decide)).bind fun closed => ?_
  split
  · exact keepsStep_pure []
  · exact keepsStep_separated keepsStep_skipTrivia one (by decide)

theorem keepsStep_askParameters (found : List ReadParameter) : (askParameters found).KeepsStep := by
  induction found with
  | nil => exact keepsStep_pure ()
  | cons read others ih =>
    exact (keepsStep_ask _).bind fun _ => (keepsStep_ask _).bind fun _ => ih

theorem keepsStep_method (limit : Nat) (tags : List (Tag × Span)) (name : String) (namePlace : Span) :
    (method limit tags name namePlace).KeepsStep := by
  have types := keepsStep_typeRef limit (limit + 1)
  refine (keepsStep_parameters types).bind fun parameters => keepsStep_skipTrivia.bind fun _ => ?_
  refine (keepsStep_require (by decide)).bind fun _ => keepsStep_skipTrivia.bind fun _ => ?_
  refine (keepsStep_spanned types).bind fun returned => (keepsStep_ask _).bind fun _ => ?_
  refine (keepsStep_askParameters parameters).bind fun _ => (keepsStep_ask _).bind fun _ => ?_
  dsimp only
  split
  · exact (keepsStep_ask _).bind fun _ => keepsStep_pure _
  · exact keepsStep_pure _

theorem keepsStep_declaration (grammar : Grammar) : (declaration grammar).KeepsStep := by
  have keyword : ∀ tags, (keywordDeclaration grammar tags).KeepsStep := by
    intro tags
    unfold keywordDeclaration
    split
    · have reserved : ∀ c ∈ "enum".toList, Token.isInert c = true :=
        List.all_eq_true.mp (by decide)
      exact (keepsStep_eatText reserved).bind fun _ => (keepsStep_ask _).bind fun _ =>
        (keepsStep_enumeration _).bind fun _ => keepsStep_pure _
    · exact keepsStep_fail _
  have named : ∀ tags, (namedDeclaration grammar tags).KeepsStep := by
    intro tags
    refine (keepsStep_spanned (keepsStep_identifier _)).bind fun name => ?_
    refine keepsStep_skipTrivia.bind fun _ => (keepsStep_look _).bind fun opensBody => ?_
    split
    · split
      · exact (keepsStep_ask _).bind fun _ => (keepsStep_ask _).bind fun _ =>
          (keepsStep_require (by decide)).bind fun _ => (keepsStep_body _ _).bind fun _ =>
            keepsStep_pure _
      · exact keepsStep_failAt _ _
    · refine (keepsStep_look _).bind fun opensParameters => ?_
      split
      · split
        · exact (keepsStep_require (by decide)).bind fun _ => (keepsStep_method _ _ _ _).bind fun _ =>
            keepsStep_pure _
        · exact keepsStep_failAt _ _
      · exact keepsStep_unexpected _
  refine keepsStep_tags.bind fun tags => (keepsStep_look _).bind fun isEnumeration => ?_
  split
  · exact keyword tags
  · exact named tags

end Reader

end ApiDef
