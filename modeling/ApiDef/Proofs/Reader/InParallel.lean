import ApiDef.Document
import ApiDef.Proofs.Reader.Replay
import ApiDef.Proofs.Text.RespelledLiteral
set_option autoImplicit false

/-!
# Readers in parallel

One reader reads a text, another one the respelled text. As long as the first one gets to a value and
does not come to the end of its text, the second one gets to the same value, at the place to which the
text was moved, and asks the same questions there. Where nothing stands behind the text, it does so at
the end too, and both fail alike.
-/

namespace ApiDef

open Text

/-- The tags of a text that starts further down. -/
def tagsDown (lines : Nat) (tags : List (Tag × Span)) : List (Tag × Span) :=
  tags.map (Prod.map id (Span.down lines))

theorem map_fst_tagsDown (lines : Nat) (tags : List (Tag × Span)) :
    (tagsDown lines tags).map (·.1) = tags.map (·.1) := by
  rw [tagsDown, List.map_map]
  rfl

theorem tagsDown_zero (tags : List (Tag × Span)) : tagsDown 0 tags = tags :=
  List.map_id tags

/-- The question as it is asked about a text that starts further down. -/
def Question.down (lines : Nat) : Question → Question
  | tags site found => tags site (tagsDown lines found)
  | declare name => declare name
  | type declared place => type declared (place.down lines)
  | route method place => route method (place.down lines)

theorem Question.down_zero (question : Question) : question.down 0 = question := by
  cases question with
  | tags => rw [down, tagsDown_zero]
  | declare => rfl
  | type => rfl
  | route => rfl

theorem Question.map_down_zero (asked : List Question) : asked.map (Question.down 0) = asked := by
  rw [show Question.down 0 = id from funext down_zero, List.map_id]

/-- The same kind of error, as many lines further down as the text. -/
structure Fault.Recurs (lines : Nat) (fault again : Fault) : Prop where
  kind : (ReadError.fault again).kind = (ReadError.fault fault).kind
  line : again.place.start.line = fault.place.start.line + lines

/-!
## Places in both texts
-/

namespace Text.Respelling

variable (spelling : Respelling) {first second : Cursor}

/-- The second cursor stands in the respelled text where the first one stands in the text. -/
structure Aligned (first second : Cursor) : Prop where
  rest : second.rest = spelling.text first.rest
  place : second.place = first.place.down spelling.lines
  /-- Carriage returns are written only where none were. -/
  plain : spelling.returns = true → '\r' ∉ first.rest

/-- The second cursor may also have passed the carriage return at the end of a line. -/
inductive Near (first second : Cursor) : Prop where
  | aligned (aligned : spelling.Aligned first second)
  | behindReturn {other : Cursor} (returns : spelling.returns = true) (aligned : spelling.Aligned first other)
      (rest : other.rest = '\r' :: second.rest) (place : second.place = other.place.advance '\r')

variable {spelling}

/-- What both cursors pass keeps them aligned. -/
theorem Aligned.pass (aligned : spelling.Aligned first second) {passed rest : List Char}
    (whole : first.rest = passed ++ rest) :
    spelling.Aligned (first.pass passed rest) (second.pass (spelling.chars passed) (spelling.text rest)) := by
  constructor
  · rfl
  · rw [Cursor.pass, Cursor.pass, aligned.place, advanceOver_chars, Position.advanceOver_down]
  · intro returns member
    apply aligned.plain returns
    rw [whole]
    exact List.mem_append_right passed member

theorem Aligned.pass_inLine (aligned : spelling.Aligned first second) {passed rest : List Char}
    (whole : first.rest = passed ++ rest) (inLine : '\n' ∉ passed) :
    spelling.Aligned (first.pass passed rest) (second.pass passed (spelling.text rest)) := by
  have passedBoth := aligned.pass whole
  rwa [spelling.chars_of_inLine inLine] at passedBoth

theorem Aligned.nextSpan_line (aligned : spelling.Aligned first second) :
    second.nextSpan.start.line = first.nextSpan.start.line + spelling.lines := by
  have start : ∀ cursor : Cursor, cursor.nextSpan.start = cursor.place := by
    intro cursor
    unfold Cursor.nextSpan
    split <;> rfl
  rw [start, start, aligned.place]
  rfl

/-- Behind the blanks it does not matter whether a carriage return was passed before. -/
theorem Near.exists_aligned (near : spelling.Near first second) :
    ∃ other, spelling.Aligned first other ∧ second.landed = other.landed := by
  cases near with
  | aligned aligned => exact ⟨second, aligned, rfl⟩
  | @behindReturn other _ aligned rest place =>
    refine ⟨other, aligned, ?_⟩
    have blank : isBlank '\r' = true := by decide
    rw [Cursor.landed, Cursor.landed, rest, List.takeWhile_cons_of_pos blank,
      List.dropWhile_cons_of_pos blank, Cursor.pass, Cursor.pass, place, Position.advanceOver_cons]

end Text.Respelling

/-!
## Outcomes in parallel
-/

namespace Reader

variable {α β γ δ σ τ : Type}

/-- How the second outcome follows the first one. A second text that goes on behind the first one may
take the second reader elsewhere where the first one fails, or where it loses the second one. -/
inductive Parallel (spelling : Respelling) (loses : α → Cursor → Prop)
    (post : α → β → Cursor → Cursor → Prop) : Outcome α → Outcome β → Prop where
  | done {value : α} {found : β} {after behind : Cursor} {asked : List Question}
      (holds : post value found after behind) :
      Parallel spelling loses post (.done value after asked)
        (.done found behind (asked.map (Question.down spelling.lines)))
  | failed {fault again : Fault} {asked : List Question} (recurs : fault.Recurs spelling.lines again) :
      Parallel spelling loses post (.failed fault asked)
        (.failed again (asked.map (Question.down spelling.lines)))
  | lost {value : α} {after : Cursor} {asked : List Question} {outcome : Outcome β}
      (goesOn : spelling.tail ≠ []) (lost : loses value after) :
      Parallel spelling loses post (.done value after asked) outcome
  | cut {fault : Fault} {asked : List Question} {outcome : Outcome β} (goesOn : spelling.tail ≠ []) :
      Parallel spelling loses post (.failed fault asked) outcome

/-- From any two related cursors the outcome of the second reader follows that of the first one. -/
def InParallel (spelling : Respelling) (pre : Cursor → Cursor → Prop) (loses : α → Cursor → Prop)
    (post : α → β → Cursor → Cursor → Prop) (reader : Reader α) (again : Reader β) : Prop :=
  ∀ start other, pre start other → Parallel spelling loses post (reader.run start) (again.run other)

/-- Related values at aligned cursors. -/
def Both (spelling : Respelling) (same : α → β → Prop) (value : α) (found : β)
    (after behind : Cursor) : Prop :=
  same value found ∧ spelling.Aligned after behind

/-- The second reader is never lost. -/
def never (_ : α) (_ : Cursor) : Prop :=
  False

/-- The second reader may be lost at the end of the first text. -/
def atEnd (_ : α) (after : Cursor) : Prop :=
  after.rest = []

/-- The reader comes to the same in both texts. -/
def Alike (spelling : Respelling) (loses : α → Cursor → Prop) (reader : Reader α) : Prop :=
  InParallel spelling spelling.Aligned loses (Both spelling Eq) reader reader

variable {spelling : Respelling} {pre weak : Cursor → Cursor → Prop} {loses lost : α → Cursor → Prop}
  {reader : Reader α} {again : Reader β}

/-- Where both cursors may be behind a carriage return, they may be aligned. -/
theorem InParallel.aligned {post : α → β → Cursor → Cursor → Prop}
    (parallel : InParallel spelling spelling.Near loses post reader again) :
    InParallel spelling spelling.Aligned loses post reader again :=
  fun start other aligned => parallel start other (.aligned aligned)

/-!
## Ways to put readers together
-/

theorem inParallel_pure {post : α → β → Cursor → Cursor → Prop} {value : α} {found : β}
    (holds : ∀ start other, pre start other → post value found start other) :
    InParallel spelling pre loses post (pure value) (pure found) :=
  fun start other related => .done (holds start other related)

theorem inParallel_pure_both {same : α → β → Prop} {value : α} {found : β} (holds : same value found) :
    InParallel spelling spelling.Aligned loses (Both spelling same) (pure value) (pure found) :=
  inParallel_pure fun _ _ aligned => ⟨holds, aligned⟩

theorem alike_pure (value : α) : (pure value : Reader α).Alike spelling loses :=
  inParallel_pure_both rfl

section

variable {next : α → Reader γ} {nextAgain : β → Reader δ} {losesNext : γ → Cursor → Prop}
  {post : γ → δ → Cursor → Cursor → Prop}

/-- Where the first reader has lost the other one, whatever comes next must have lost it too. -/
theorem InParallel.bind {middle : α → β → Cursor → Cursor → Prop}
    (firstParallel : InParallel spelling pre lost middle reader again)
    (losing : ∀ value after, lost value after →
      (next value).Ensures after fun result stop _ => losesNext result stop)
    (nextParallel : ∀ value found,
      InParallel spelling (middle value found) losesNext post (next value) (nextAgain found)) :
    InParallel spelling pre losesNext post (reader >>= next) (again >>= nextAgain) := by
  intro start other holds
  rw [run_bind, run_bind]
  have here := firstParallel start other holds
  generalize reader.run start = outcome at here ⊢
  generalize again.run other = outcomeAgain at here ⊢
  cases here with
  | @done value found after behind asked related =>
    have there := nextParallel value found after behind related
    dsimp only
    generalize (next value).run after = later at there ⊢
    generalize (nextAgain found).run behind = laterAgain at there ⊢
    cases there with
    | done holds =>
      simp only [Outcome.asking, ← List.map_append]
      exact .done holds
    | failed recurs =>
      simp only [Outcome.asking, ← List.map_append]
      exact .failed recurs
    | lost goesOn lost => exact .lost goesOn lost
    | cut goesOn => exact .cut goesOn
  | failed recurs => exact .failed recurs
  | @lost value after asked _ goesOn lost =>
    have ends := losing value after lost
    dsimp only
    cases ran : (next value).run after with
    | failed => exact .cut goesOn
    | done result stop later => exact .lost goesOn (ends _ _ _ ran)
  | cut goesOn => exact .cut goesOn

theorem InParallel.bindBoth {same : α → β → Prop}
    (firstParallel : InParallel spelling pre lost (Both spelling same) reader again)
    (losing : ∀ value after, lost value after →
      (next value).Ensures after fun result stop _ => losesNext result stop)
    (nextParallel : ∀ value found, same value found →
      InParallel spelling spelling.Aligned losesNext post (next value) (nextAgain found)) :
    InParallel spelling pre losesNext post (reader >>= next) (again >>= nextAgain) := by
  apply firstParallel.bind losing
  rintro value found start other ⟨related, aligned⟩
  exact nextParallel value found related start other aligned

/-- Where the first reader may be lost at the end of its text, the next one takes something. -/
theorem InParallel.bindTaking {same : α → β → Prop}
    (firstParallel : InParallel spelling pre atEnd (Both spelling same) reader again)
    (takes : ∀ value, (next value).Advances fun _ => True)
    (nextParallel : ∀ value found, same value found →
      InParallel spelling spelling.Aligned losesNext post (next value) (nextAgain found)) :
    InParallel spelling pre losesNext post (reader >>= next) (again >>= nextAgain) := by
  refine firstParallel.bindBoth ?_ nextParallel
  intro value after ended result stop asked ran
  have shorter := takes value _ _ _ _ ran trivial
  rw [show after.rest = [] from ended] at shorter
  exact absurd shorter (Nat.not_lt_zero _)

theorem InParallel.andThen {same : α → β → Prop}
    (firstParallel : InParallel spelling pre never (Both spelling same) reader again)
    (nextParallel : ∀ value found, same value found →
      InParallel spelling spelling.Aligned losesNext post (next value) (nextAgain found)) :
    InParallel spelling pre losesNext post (reader >>= next) (again >>= nextAgain) :=
  firstParallel.bindBoth (fun _ _ lost => lost.elim) nextParallel

end

theorem Alike.andThen {next : α → Reader γ} {nextAgain : α → Reader δ} {losesNext : γ → Cursor → Prop}
    {post : γ → δ → Cursor → Cursor → Prop} (firstAlike : reader.Alike spelling never)
    (nextParallel : ∀ value,
      InParallel spelling spelling.Aligned losesNext post (next value) (nextAgain value)) :
    InParallel spelling spelling.Aligned losesNext post (reader >>= next) (reader >>= nextAgain) := by
  apply InParallel.andThen firstAlike
  rintro value _ rfl
  exact nextParallel value

theorem inParallel_of_failed {post : α → β → Cursor → Cursor → Prop}
    (fails : ∀ start other, pre start other → ∃ fault recurring, reader.run start = .failed fault []
      ∧ again.run other = .failed recurring [] ∧ fault.Recurs spelling.lines recurring) :
    InParallel spelling pre loses post reader again := by
  intro start other holds
  obtain ⟨fault, recurring, ran, ranAgain, recurs⟩ := fails start other holds
  rw [ran, ranAgain]
  exact .failed recurs

theorem inParallel_unexpected {post : α → β → Cursor → Cursor → Prop} {expected others : List Expected} :
    InParallel spelling spelling.Aligned loses post (unexpected expected) (unexpected others) :=
  inParallel_of_failed fun _ _ aligned => ⟨_, _, rfl, rfl, rfl, aligned.nextSpan_line⟩

theorem inParallel_fail {post : α → β → Cursor → Cursor → Prop} {cause : Fault.Cause} :
    InParallel spelling spelling.Aligned loses post (fail cause) (fail cause) := by
  apply inParallel_of_failed
  intro start other aligned
  refine ⟨_, _, rfl, rfl, ?_, aligned.nextSpan_line⟩
  cases cause <;> rfl

theorem inParallel_failAt {post : α → β → Cursor → Cursor → Prop} {cause : Fault.Cause} {place : Span} :
    InParallel spelling spelling.Aligned loses post (failAt place cause)
      (failAt (place.down spelling.lines) cause) := by
  apply inParallel_of_failed
  intro start other aligned
  refine ⟨_, _, rfl, rfl, ?_, rfl⟩
  cases cause <;> rfl

theorem inParallel_ask (question : Question) :
    InParallel spelling spelling.Aligned never (Both spelling Eq) (ask question)
      (ask (question.down spelling.lines)) :=
  fun _ _ aligned => .done ⟨rfl, aligned⟩

/-- The second place is that of the first text, moved. -/
def IsDown (lines : Nat) (place again : Position) : Prop :=
  again = place.down lines

theorem inParallel_here :
    InParallel spelling spelling.Aligned never (Both spelling (IsDown spelling.lines)) here here :=
  fun _ _ aligned => .done ⟨aligned.place, aligned⟩

theorem alike_look {f : List Char → α} (same : ∀ cs, f (spelling.text cs) = f cs) :
    (look f).Alike spelling never := by
  intro start other aligned
  rw [run_look, run_look, aligned.rest, same]
  exact .done ⟨rfl, aligned⟩

theorem alike_lookingAt {c : Char} (inLine : c ≠ '\n' ∧ c ≠ '\r') : (lookingAt c).Alike spelling never := by
  apply alike_look
  intro cs
  have front : ∀ others : List Char, decide (others.head? = some c) = [c].isPrefixOf others := by
    intro others
    cases others with
    | nil => rfl
    | cons d rest =>
      simp only [List.head?_cons, Option.some.injEq, List.isPrefixOf, Bool.and_true, eq_comm]
      rfl
  rw [front, front, spelling.isPrefixOf_text (List.forall_mem_singleton.mpr inLine)]

theorem alike_eatText {text : List Char} (inLine : IsInLine text) :
    (eatText text).Alike spelling never := by
  intro start other aligned
  simp only [eatText, aligned.rest, spelling.isPrefixOf_text inLine]
  split
  next starts =>
    obtain ⟨rest, whole⟩ := List.isPrefixOf_iff_prefix.mp starts
    rw [spelling.drop_text inLine starts, ← whole, List.drop_left]
    exact .done ⟨rfl, aligned.pass_inLine whole.symm inLine.not_mem_lineFeed⟩
  next => exact .done ⟨rfl, aligned⟩

theorem alike_eat {c : Char} (inLine : c ≠ '\n' ∧ c ≠ '\r') : (eat c).Alike spelling never :=
  alike_eatText (List.forall_mem_singleton.mpr inLine)

theorem alike_require {c : Char} (inLine : c ≠ '\n' ∧ c ≠ '\r') : (require c).Alike spelling never := by
  apply (alike_eat inLine).andThen
  intro found
  cases found with
  | true => exact alike_pure ()
  | false => exact inParallel_unexpected

/-- An attempt that comes to nothing goes back, so it must not have been lost where it started. -/
theorem Alike.attempt {reader : Reader (Option α)} {loses : Option α → Cursor → Prop}
    (lost : Option α → Cursor → Prop) (alike : reader.Alike spelling lost)
    (some : ∀ value after, lost (some value) after → loses (some value) after)
    (none : ∀ start after, reader.Reads start none after → lost none after → loses none start) :
    (Reader.attempt reader).Alike spelling loses := by
  intro start other aligned
  have here := alike start other aligned
  simp only [Reader.attempt]
  cases ran : reader.run start with
  | failed fault asked =>
    rw [ran] at here
    generalize reader.run other = outcomeAgain at here ⊢
    cases here with
    | failed recurs => exact .failed recurs
    | cut goesOn => exact .cut goesOn
  | done value after asked =>
    rw [ran] at here
    generalize reader.run other = outcomeAgain at here ⊢
    cases value with
    | none =>
      cases here with
      | done holds =>
        obtain ⟨rfl, -⟩ := holds
        exact .done ⟨rfl, aligned⟩
      | lost goesOn lost => exact .lost goesOn (none start after ⟨asked, ran⟩ lost)
    | some value =>
      cases here with
      | done holds =>
        obtain ⟨rfl, behind⟩ := holds
        exact .done ⟨rfl, behind⟩
      | lost goesOn lost => exact .lost goesOn (some value after lost)

/-!
## Loops
-/

/-- Where a round leaves both texts. Each round skips blanks first, so it may start behind a carriage
return. -/
def Round.Leaves (spelling : Respelling) : Round σ α → Cursor → Cursor → Prop
  | .next _ _ => spelling.Near
  | .stop _ => spelling.Aligned

/-- Two rounds find the same, go on alike, and leave both texts at the same place. -/
def Round.InStep (spelling : Respelling) (good : List α → List β → Prop) (related : σ → τ → Prop)
    (round : Round σ α) (again : Round τ β) (after behind : Cursor) : Prop :=
  round.Matches good related again ∧ round.Leaves spelling after behind

section

variable {step : σ → Reader (Round σ α)} {stepAgain : τ → Reader (Round τ β)}
  {advances : ∀ state, (step state).Advances Round.GoesOn}
  {advancesAgain : ∀ state, (stepAgain state).Advances Round.GoesOn} {good : List α → List β → Prop}
  (related : σ → τ → Prop)

theorem inParallel_rounds (losesRound : Round σ α → Cursor → Prop) {ends : Cursor → Prop}
    (join : ∀ found others later further, good found others → good later further →
      good (found ++ later) (others ++ further))
    (stop : ∀ found after, losesRound (.stop found) after → ends after)
    (next : ∀ found further after, losesRound (.next found further) after →
      (rounds step advances further).Ensures after fun _ last _ => ends last)
    (round : ∀ state copy, related state copy →
      InParallel spelling spelling.Near losesRound (Round.InStep spelling good related) (step state)
        (stepAgain copy))
    {state : σ} {copy : τ} (holds : related state copy) :
    InParallel spelling spelling.Near (fun _ => ends) (Both spelling good) (rounds step advances state)
      (rounds stepAgain advancesAgain copy) := by
  intro start other near
  -- By the rounds of the first reader: as long as it is not lost, the second one makes the same rounds.
  change Parallel spelling _ _ (runRounds step advances state start) _
  fun_induction runRounds step advances state start generalizing copy other with
  | case1 state start fault asked result =>
    have here := round state copy holds start other near
    rw [result] at here
    rw [run_rounds]
    generalize (stepAgain copy).run other = outcome at here ⊢
    cases here with
    | failed recurs => exact .failed recurs
    | cut goesOn => exact .cut goesOn
  | case2 state start found after asked result =>
    have here := round state copy holds start other near
    rw [result] at here
    rw [run_rounds]
    generalize (stepAgain copy).run other = outcome at here ⊢
    cases here with
    | @done _ again _ behind _ inStep =>
      obtain ⟨same, aligned⟩ := inStep
      cases again with
      | next => cases same
      | stop others => exact .done ⟨same, aligned⟩
    | lost goesOn lost => exact .lost goesOn (stop _ _ lost)
  | case3 state start found further middle asked result ih =>
    have here := round state copy holds start other near
    rw [result] at here
    rw [run_rounds]
    generalize (stepAgain copy).run other = outcome at here ⊢
    cases here with
    | @done _ again _ behind _ inStep =>
      obtain ⟨same, leaves⟩ := inStep
      cases again with
      | stop => cases same
      | next others furtherCopy =>
        obtain ⟨foundSame, stateRelated⟩ := same
        have there := ih stateRelated behind leaves
        dsimp only
        generalize runRounds step advances further middle = later at there ⊢
        generalize (rounds stepAgain advancesAgain furtherCopy).run behind = laterAgain at there ⊢
        cases there with
        | done both =>
          simp only [Outcome.asking, Outcome.map, ← List.map_append]
          exact .done ⟨join _ _ _ _ foundSame both.1, both.2⟩
        | failed recurs =>
          simp only [Outcome.asking, Outcome.map, ← List.map_append]
          exact .failed recurs
        | lost goesOn lost => exact .lost goesOn lost
        | cut goesOn => exact .cut goesOn
    | lost goesOn lost =>
      have ends := next found further middle lost
      cases ran : runRounds step advances further middle with
      | failed => exact .cut goesOn
      | done later last askedLater => exact .lost goesOn (ends _ _ _ ran)

/-- Where no round loses the second reader, the loop does not. -/
theorem inParallel_rounds_never
    (join : ∀ found others later further, good found others → good later further →
      good (found ++ later) (others ++ further))
    (round : ∀ state copy, related state copy →
      InParallel spelling spelling.Near never (Round.InStep spelling good related) (step state)
        (stepAgain copy))
    {state : σ} {copy : τ} (holds : related state copy) :
    InParallel spelling spelling.Near never (Both spelling good) (rounds step advances state)
      (rounds stepAgain advancesAgain copy) := by
  apply inParallel_rounds related never join
  · exact fun _ _ lost => lost
  · exact fun _ _ _ lost => lost.elim
  · exact round
  · exact holds

end

end Reader

end ApiDef
