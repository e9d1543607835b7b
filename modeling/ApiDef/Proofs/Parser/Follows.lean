import ApiDef.Parser.Document
import ApiDef.Proofs.Reader.Quiet
set_option autoImplicit false

/-!
# Checking on the way and answering afterwards

A reader asks questions and looks at no answer; a parser checks at once. A parser follows a reader if it
comes to what the reader comes to once its questions are answered in order, where a finding that stops
the checks counts before anything that the reader comes to behind it. This composes along the parser.
-/

namespace ApiDef

/-!
## Answers
-/

namespace Validator

variable {validator checked : Validator} {found later : List Finding} {table : TypeTable}

/-- The check that a question calls for. -/
def answer (validator : Validator) : Question → Except Finding Validator
  | .tags site found => validator.checkTags site found
  | .declare name => .ok (validator.declare name)
  | .type type place => validator.checkType type place
  | .route method place => validator.checkRoute method place

def answerAll (validator : Validator) (asked : List Question) : Except Finding Validator :=
  asked.foldlM answer validator

/-- The validator with further findings and another table; without collecting, the first of the
findings. -/
def having (validator : Validator) (found : List Finding) (table : TypeTable) :
    Except Finding Validator :=
  match validator.options.softErrors, found with
  | false, first :: _ => .error first
  | _, found => .ok { validator with table, findings := validator.findings ++ found }

theorem having_nil (validator : Validator) (table : TypeTable) :
    validator.having [] table = .ok { validator with table } := by
  unfold having
  cases validator.options.softErrors <;> simp

theorem having_eq_ok (kept : validator.having found table = .ok checked) :
    checked = { validator with table, findings := validator.findings ++ found } := by
  unfold having at kept
  split at kept
  · cases kept
  · cases kept
    rfl

/-- Findings in two goes are findings in one go. -/
theorem having_append (validator : Validator) (found later : List Finding)
    (table final : TypeTable) :
    validator.having (found ++ later) final
      = validator.having found table >>= fun checked => checked.having later final := by
  cases soft : validator.options.softErrors with
  | true => simp [having, soft, bind, Except.bind]
  | false =>
    cases found with
    | nil => simp [having, soft, bind, Except.bind]
    | cons first others => simp [having, soft, bind, Except.bind]

theorem report_eq_having (validator : Validator) (finding : Finding) :
    validator.report finding = validator.having [finding] validator.table := by
  unfold report having
  cases validator.options.softErrors <;> rfl

theorem checkTags_eq_having (validator : Validator) (site : Site) (tags : List (Tag × Text.Span)) :
    validator.checkTags site tags
      = validator.having
        ((Question.tags site tags).findings validator.patternFault? validator.options validator.table)
        validator.table := by
  induction tags generalizing validator with
  | nil => exact (having_nil validator validator.table).symm
  | cons first others ih =>
    obtain ⟨tag, place⟩ := first
    simp only [checkTags, Question.findings, List.filterMap_cons]
    cases Question.tagIssue? validator.options site tag with
    | none => exact ih validator
    | some issue =>
      change (validator.report ⟨issue, place⟩ >>= fun checked => checked.checkTags site others)
        = validator.having ([⟨issue, place⟩] ++ _) validator.table
      rw [having_append _ _ _ validator.table, ← report_eq_having]
      cases reported : validator.report ⟨issue, place⟩ with
      | error finding => rfl
      | ok checked =>
        rw [report_eq_having] at reported
        obtain rfl := having_eq_ok reported
        exact ih _

theorem foldlM_report (validator : Validator) (place : Text.Span) (issues : List TypeIssue) :
    issues.foldlM (fun validator issue => validator.report ⟨.type issue, place⟩) validator
      = validator.having (issues.map fun issue => ⟨.type issue, place⟩) validator.table := by
  induction issues generalizing validator with
  | nil => exact (having_nil validator validator.table).symm
  | cons issue others ih =>
    rw [List.foldlM_cons, List.map_cons, ← List.singleton_append, having_append _ _ _ validator.table,
      ← report_eq_having]
    cases reported : validator.report ⟨.type issue, place⟩ with
    | error finding => rfl
    | ok checked =>
      rw [report_eq_having] at reported
      obtain rfl := having_eq_ok reported
      exact ih _

theorem checkRoute_eq_having (validator : Validator) (method : Method) (place : Text.Span) :
    validator.checkRoute method place
      = validator.having
        ((Question.route method place).findings validator.patternFault? validator.options
          validator.table)
        validator.table := by
  unfold checkRoute
  simp only [Question.findings]
  split
  · cases method.routeIssue? validator.patternFault? with
    | none => exact (having_nil validator validator.table).symm
    | some issue => exact report_eq_having validator _
  · exact (having_nil validator validator.table).symm

/-- A check finds what answers its question, and changes nothing else but the table. -/
theorem answer_eq_having (validator : Validator) (question : Question) :
    validator.answer question
      = validator.having
        (question.findings validator.patternFault? validator.options validator.table)
        (question.tableAfter validator.table) := by
  cases question with
  | tags site tags => exact checkTags_eq_having validator site tags
  | declare name => exact (having_nil validator _).symm
  | type type place => exact foldlM_report validator place _
  | route method place => exact checkRoute_eq_having validator method place

theorem answerAll_eq_having (validator : Validator) (asked : List Question) :
    validator.answerAll asked
      = validator.having
        (Question.findingsOfAll validator.patternFault? validator.options validator.table asked)
        (asked.foldl (fun table question => question.tableAfter table) validator.table) := by
  induction asked generalizing validator with
  | nil => exact (having_nil validator validator.table).symm
  | cons question others ih =>
    rw [answerAll, List.foldlM_cons, Question.findingsOfAll,
      having_append _ _ _ (question.tableAfter validator.table), ← answer_eq_having, List.foldl_cons]
    cases answered : validator.answer question with
    | error finding => rfl
    | ok checked =>
      rw [answer_eq_having] at answered
      obtain rfl := having_eq_ok answered
      exact ih _

theorem answerAll_append (validator : Validator) (earlier later : List Question) :
    validator.answerAll (earlier ++ later)
      = validator.answerAll earlier >>= fun checked => checked.answerAll later :=
  List.foldlM_append

end Validator

namespace Outcome

variable {α : Type}

/-- What an outcome is worth once its questions are answered: a check that stops counts first. -/
def settle (validator : Validator) (outcome : Outcome α) : Except ReadError (Parsed α) :=
  match validator.answerAll outcome.asked with
  | .error finding => .error (.finding finding)
  | .ok checked =>
    match outcome with
    | done value after _ => .ok ⟨value, after, checked⟩
    | failed fault _ => .error (.fault fault)

theorem settle_eq (validator : Validator) (outcome : Outcome α) :
    outcome.settle validator
      = match validator.options.softErrors,
          Question.findingsOfAll validator.patternFault? validator.options validator.table outcome.asked,
          outcome with
        | false, first :: _, _ => .error (.finding first)
        | _, found, done value after asked =>
          .ok ⟨value, after, { validator with
            table := asked.foldl (fun table question => question.tableAfter table) validator.table
            findings := validator.findings ++ found }⟩
        | _, _, failed fault _ => .error (.fault fault) := by
  rw [settle, Validator.answerAll_eq_having]
  unfold Validator.having
  generalize Question.findingsOfAll _ _ _ _ = found
  cases outcome with
  | done value after asked => cases validator.options.softErrors <;> cases found <;> rfl
  | failed fault asked => cases validator.options.softErrors <;> cases found <;> rfl

theorem settle_done (validator : Validator) (value : α) (after : Cursor) (asked : List Question) :
    (done value after asked).settle validator =
      match validator.answerAll asked with
      | .error finding => .error (.finding finding)
      | .ok checked => .ok ⟨value, after, checked⟩ := rfl

theorem settle_failed (validator : Validator) (fault : Fault) (asked : List Question) :
    (failed fault asked : Outcome α).settle validator =
      match validator.answerAll asked with
      | .error finding => .error (.finding finding)
      | .ok _ => .error (.fault fault) := rfl

theorem settle_asking (validator : Validator) (earlier : List Question) (outcome : Outcome α) :
    (outcome.asking earlier).settle validator =
      match validator.answerAll earlier with
      | .error finding => .error (.finding finding)
      | .ok checked => outcome.settle checked := by
  cases outcome <;>
  · simp only [settle, asking, asked, Validator.answerAll_append]
    cases validator.answerAll earlier <;> rfl

theorem settle_map {β : Type} (f : α → β) (validator : Validator) (outcome : Outcome α) :
    (outcome.map f).settle validator =
      match outcome.settle validator with
      | .ok parsed => .ok ⟨f parsed.value, parsed.after, parsed.validator⟩
      | .error error => .error error := by
  cases outcome <;>
  · simp only [settle, map, asked]
    cases validator.answerAll _ <;> rfl

end Outcome

/-!
## Following
-/

namespace Parser

open Reader (Round)

variable {α β σ : Type}

/-- The parser comes to what the reader comes to, once the questions of the reader are answered. -/
def Follows (parser : Parser α) (reader : Reader α) : Prop :=
  ∀ validator start, parser.run validator start = (reader.run start).settle validator

theorem follows_pure (value : α) : (pure value : Parser α).Follows (pure value) :=
  fun _ _ => rfl

theorem Follows.bind {first : Parser α} {next : α → Parser β} {firstReader : Reader α}
    {nextReader : α → Reader β} (firstFollows : first.Follows firstReader)
    (nextFollows : ∀ value, (next value).Follows (nextReader value)) :
    (first >>= next).Follows (firstReader >>= nextReader) := by
  intro validator start
  rw [run_bind, Reader.run_bind, firstFollows]
  cases firstReader.run start with
  | failed fault asked =>
    simp only [Outcome.settle_failed]
    cases validator.answerAll asked <;> rfl
  | done value after asked =>
    simp only [Outcome.settle_asking, Outcome.settle_done]
    cases validator.answerAll asked with
    | error finding => rfl
    | ok checked => exact nextFollows value checked after

/-- A reader that asks nothing has nothing to check. -/
theorem follows_reading {reader : Reader α} (quiet : reader.Quiet) :
    (reading reader).Follows reader := by
  intro validator start
  have nothing := quiet start
  simp only [reading]
  cases ran : reader.run start with
  | done value after asked =>
    obtain rfl : asked = [] := by simpa only [ran, Outcome.asked] using nothing
    rfl
  | failed fault asked =>
    obtain rfl : asked = [] := by simpa only [ran, Outcome.asked] using nothing
    rfl

/-- Checking follows asking if the check is the one that the question calls for. -/
theorem follows_check {action : Validator → Except Finding Validator} {question : Question}
    (same : ∀ validator, action validator = validator.answer question) :
    (check action).Follows (Reader.ask question) := by
  intro validator start
  have answered : validator.answerAll [question] = validator.answer question := by
    rw [Validator.answerAll, List.foldlM_cons]
    cases validator.answer question <;> rfl
  simp only [check, same, Reader.ask, Outcome.settle, Outcome.asked, answered]
  cases validator.answer question <;> rfl

theorem follows_declare (name : String) : (declare name).Follows (Reader.ask (.declare name)) :=
  follows_check fun _ => rfl

section

variable {step : σ → Parser (Round σ β)} {advances : ∀ state, (step state).Advances Round.GoesOn}

theorem run_rounds (state : σ) (validator : Validator) (start : Cursor) :
    (rounds step advances state).run validator start =
      match (step state).run validator start with
      | .error error => .error error
      | .ok ⟨.stop found, after, checked⟩ => .ok ⟨found, after, checked⟩
      | .ok ⟨.next found further, after, checked⟩ =>
        match (rounds step advances further).run checked after with
        | .error error => .error error
        | .ok ⟨others, final, last⟩ => .ok ⟨found ++ others, final, last⟩ := by
  change runRounds step advances state validator start = _
  rw [runRounds]
  split
  next ran => rw [ran]
  next ran => rw [ran]
  next ran =>
    rw [ran]
    rfl

/-- A loop follows a loop if every round does: both stop in the same round, at a check or at a fault. -/
theorem follows_rounds {readStep : σ → Reader (Round σ β)}
    {readAdvances : ∀ state, (readStep state).Advances Round.GoesOn}
    (follows : ∀ state, (step state).Follows (readStep state)) (state : σ) :
    (rounds step advances state).Follows (Reader.rounds readStep readAdvances state) := by
  intro validator start
  change _ = (Reader.runRounds readStep readAdvances state start).settle validator
  fun_induction Reader.runRounds readStep readAdvances state start generalizing validator with
  | case1 state start fault asked result =>
    rw [run_rounds, follows, result, Outcome.settle_failed, Outcome.settle_failed]
    cases validator.answerAll asked <;> rfl
  | case2 state start found after asked result =>
    rw [run_rounds, follows, result, Outcome.settle_done, Outcome.settle_done]
    cases validator.answerAll asked <;> rfl
  | case3 state start found further after asked result ih =>
    rw [run_rounds, follows, result, Outcome.settle_done, Outcome.settle_map,
      Outcome.settle_asking]
    cases validator.answerAll asked with
    | error finding => rfl
    | ok checked =>
      dsimp only
      rw [ih]
      cases (Reader.runRounds readStep readAdvances further after).settle checked <;> rfl

end

end Parser

end ApiDef
