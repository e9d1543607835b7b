import ApiDef.Proofs.Model.Reread
import ApiDef.Proofs.Reader.Words
set_option autoImplicit false

/-!
# Reading descriptions back

The lines of a description stand right above what they describe, one comment each. Reading them in
rounds collects exactly these comments, whatever comments stand further above.
-/

namespace ApiDef

open Text

theorem Text.Position.line_advanceOver (position : Position) (passed : List Char) :
    (position.advanceOver passed).line = position.line + passed.count '\n' := by
  induction passed generalizing position with
  | nil => rfl
  | cons c others ih =>
    rw [advanceOver_cons, ih, advance, List.count_cons]
    split
    next same =>
      rw [same]
      simp
      omega
    next different => simp [different]

/-- The cursor behind the blanks that stand at it. -/
def Cursor.landed (cursor : Cursor) : Cursor :=
  cursor.pass (cursor.rest.takeWhile isBlank) (cursor.rest.dropWhile isBlank)

theorem Cursor.landed_eq {cursor : Cursor} {blanks tail : List Char} (rest : cursor.rest = blanks ++ tail)
    (allBlank : ∀ c ∈ blanks, isBlank c = true) (stops : Stops isBlank tail) :
    cursor.landed = cursor.pass blanks tail := by
  rw [landed, rest, takeWhile_of_stops allBlank stops, dropWhile_of_stops allBlank stops]

theorem Cursor.Reaches.line_le {first second : Cursor} (reaches : first.Reaches second) :
    first.place.line ≤ second.place.line := by
  obtain ⟨passed, -, place⟩ := reaches
  rw [place, Position.line_advanceOver]
  exact Nat.le_add_right _ _

theorem Cursor.line_le_landed (cursor : Cursor) : cursor.place.line ≤ cursor.landed.place.line := by
  rw [landed, pass, Position.line_advanceOver]
  exact Nat.le_add_right _ _

theorem Cursor.line_lt_landed {cursor : Cursor} {others : List Char}
    (rest : cursor.rest = '\n' :: others) : cursor.place.line < cursor.landed.place.line := by
  rw [landed, pass, Position.line_advanceOver, rest, List.takeWhile_cons_of_pos isBlank_lineFeed,
    List.count_cons_self]
  omega

theorem trimStart_trimStart (cs : List Char) : trimStart (trimStart cs) = trimStart cs :=
  trimStart_of_stops (stops_dropWhile isBlank cs)

theorem trimStart_lineFeed (cs : List Char) : trimStart ('\n' :: cs) = trimStart cs :=
  List.dropWhile_cons_of_pos isBlank_lineFeed

namespace Reader

theorem run_skipBlanks_landed (start : Cursor) :
    skipBlanks.run start = .done () start.landed [] := by
  have taken : (takeWhile isBlank).run start
      = .done (start.rest.takeWhile isBlank) start.landed [] := rfl
  rw [skipBlanks, run_andThen taken]
  rfl

/-!
## Comments
-/

/-- How a comment starts. -/
def commentMark (slashed : Bool) : List Char :=
  if slashed then ['/', '/'] else ['#']

/-- What is known about a comment that was read on some line. -/
structure CommentFacts (line lastCodeLine : Nat) (slashed : Bool) (body : List Char)
    (comment : PendingComment) : Prop where
  text : comment.text = rereadLine body
  slashed : comment.slashed = slashed
  alone : comment.alone = decide (lastCodeLine < line)
  line : comment.span.start.line = line

theorem yields_comment? (lastCodeLine : Nat) {slashed : Bool} {start : Cursor} {body tail : List Char}
    (rest : start.rest = commentMark slashed ++ (body ++ tail)) (oneLine : '\n' ∉ body)
    (ends : Stops (· ≠ '\n') tail) :
    (comment? lastCodeLine).Yields start True fun found after =>
      (∃ comment, found = some comment
        ∧ CommentFacts start.place.line lastCodeLine slashed body comment)
      ∧ after.rest = tail ∧ after.place.line = start.place.line := by
  have inLine : ∀ c ∈ body, decide (c ≠ '\n') = true := by
    intro c member
    have different : c ≠ '\n' := fun same => oneLine (same ▸ member)
    simpa using different
  have taken : ∀ middle : Cursor, middle.rest = body ++ tail →
      (takeWhile (· ≠ '\n')).run middle = .done body (middle.pass body tail) [] := by
    intro middle middleRest
    simp only [takeWhile, middleRest, takeWhile_of_stops inLine ends, dropWhile_of_stops inLine ends]
  have noLineFeed : body.count '\n' = 0 := List.count_eq_zero.mpr oneLine
  refine yields_after (run_here start) ?_
  cases slashed with
  | true =>
    refine yields_after (run_eatText rest) ?_
    refine yields_after (run_pure false _) ?_
    refine yields_after (taken _ rfl) ?_
    refine yields_after (run_here _) ?_
    refine yields_pure ⟨⟨_, rfl, ⟨rfl, rfl, rfl, rfl⟩⟩, rfl, ?_⟩
    simp [Cursor.pass, Position.line_advanceOver, Position.advance, noLineFeed]
  | false =>
    have notSlashed : (eatText ['/', '/']).run start = .done false start [] := by
      simp [eatText, rest, commentMark]
    refine yields_after notSlashed ?_
    refine yields_after (run_eat rest) ?_
    refine yields_after (taken _ rfl) ?_
    refine yields_after (run_here _) ?_
    refine yields_pure ⟨⟨_, rfl, ⟨rfl, rfl, rfl, rfl⟩⟩, rfl, ?_⟩
    simp [Cursor.pass, Position.line_advanceOver, Position.advance, noLineFeed]

theorem run_comment?_none (lastCodeLine : Nat) {start : Cursor}
    (noComment : startsComment start.rest = false) :
    (comment? lastCodeLine).run start = .done none start [] := by
  have notSlashed : (eatText ['/', '/']).run start = .done false start [] := by
    cases starts : ['/', '/'].isPrefixOf start.rest with
    | false => simp only [eatText, starts, Bool.false_eq_true, if_false]
    | true =>
      obtain ⟨others, whole⟩ := List.isPrefixOf_iff_prefix.mp starts
      rw [← whole] at noComment
      cases noComment
  have notHashed : start.rest.head? ≠ some '#' := by
    intro same
    obtain ⟨others, whole⟩ := List.head?_eq_some_iff.mp same
    rw [whole] at noComment
    cases noComment
  rw [comment?, run_andThen (run_here start), run_andThen notSlashed]
  simp only [Bool.false_eq_true, if_false, Bool.false_or]
  rw [run_andThen (run_eat_other notHashed)]
  rfl

/-- A round that finds a comment keeps it and goes on. -/
def TakesComments {β : Type} (step : Pending → Reader (Round Pending β)) : Prop :=
  ∀ {pending : Pending} {start : Cursor} {slashed : Bool} {body tail : List Char},
    start.landed.rest = commentMark slashed ++ (body ++ tail) → '\n' ∉ body →
    Stops (· ≠ '\n') tail → (step pending).Yields start True fun result after =>
      (∃ comment, result = .next [] (pending.add comment)
        ∧ CommentFacts start.landed.place.line pending.lastCodeLine slashed body comment)
      ∧ after.rest = tail ∧ after.place.line = start.landed.place.line

theorem takesComments_propertyRound (types : Advancing TypeRef)
    (inner : Unit → Reader (List Property)) : TakesComments (propertyRound types inner) := by
  intro pending start slashed body tail rest oneLine ends
  refine yields_after (run_skipBlanks_landed start) ?_
  refine (yields_comment? _ rest oneLine ends).andThen fun found after facts => ?_
  obtain ⟨⟨comment, rfl, known⟩, afterRest, afterLine⟩ := facts
  exact yields_pure ⟨⟨comment, rfl, known⟩, afterRest, afterLine⟩

theorem takesComments_documentRound (grammar : Grammar) : TakesComments (documentRound grammar) := by
  intro pending start slashed body tail rest oneLine ends
  have goesOn : start.landed.rest.isEmpty = false := by
    rw [rest]
    cases slashed <;> rfl
  refine yields_after (run_skipBlanks_landed start) ?_
  refine yields_after (run_look _ _) ?_
  simp only [goesOn, Bool.false_eq_true, if_false]
  refine (yields_comment? _ rest oneLine ends).andThen fun found after facts => ?_
  obtain ⟨⟨comment, rfl, known⟩, afterRest, afterLine⟩ := facts
  exact yields_pure ⟨⟨comment, rfl, known⟩, afterRest, afterLine⟩

/-!
## Runs of comments
-/

/-- What the pending comments say about what starts on a line: the lines that describe it, and the
comments that do not. -/
structure Pending.Describes (pending : Pending) (line : Nat) (texts : List String)
    (earlier : List PendingComment) : Prop where
  split : ∃ describing, splitDescription line pending.comments = (describing, earlier)
    ∧ describing.reverse.map PendingComment.text = texts
  behind : pending.lastCodeLine < line

theorem Pending.describes_none {pending : Pending} {line : Nat}
    (unslashed : ∀ comment ∈ pending.comments, comment.slashed = false)
    (behind : pending.lastCodeLine < line) : pending.Describes line [] pending.comments := by
  refine ⟨⟨[], ?_, rfl⟩, behind⟩
  cases comments : pending.comments with
  | nil => rfl
  | cons comment earlier =>
    have plain := unslashed comment (comments ▸ List.mem_cons_self)
    simp [splitDescription, plain]

theorem Pending.Describes.add {pending : Pending} {line : Nat} {texts : List String}
    {earlier : List PendingComment} (describes : pending.Describes line texts earlier)
    {body : List Char} {comment : PendingComment}
    (facts : CommentFacts line pending.lastCodeLine true body comment) :
    (pending.add comment).Describes (line + 1)
      (texts ++ [rereadLine body]) earlier := by
  obtain ⟨⟨describing, split, same⟩, behind⟩ := describes
  refine ⟨⟨comment :: describing, ?_, ?_⟩, Nat.lt_succ_of_lt behind⟩
  · have alone : comment.alone = true := by
      rw [facts.alone]
      exact decide_eq_true behind
    simp [Pending.add, splitDescription, facts.slashed, alone, facts.line, split]
  · rw [List.reverse_cons, List.map_append, same, List.map_singleton, facts.text]

/-- The comments that a description was written as give it back. -/
theorem Pending.Describes.descriptionOf_split {pending : Pending} {line : Nat}
    {description : Option String} {earlier : List PendingComment}
    (describes : pending.Describes line ((descriptionLines description).map rereadLine) earlier) :
    descriptionOf (splitDescription line pending.comments).1 = description.map rereadDescription := by
  obtain ⟨⟨describing, split, same⟩, -⟩ := describes
  rw [split]
  cases description with
  | none =>
    have none : describing = [] := by simpa [descriptionLines] using same
    rw [none]
    rfl
  | some text =>
    have nonempty : describing.isEmpty = false := by
      cases describing with
      | nil => simp [descriptionLines] at same
      | cons comment others => rfl
    simp only [descriptionOf, nonempty, Bool.false_eq_true, if_false, same]
    rfl

theorem Pending.Describes.earlier_split {pending : Pending} {line : Nat} {texts : List String}
    {earlier : List PendingComment} (describes : pending.Describes line texts earlier) :
    (splitDescription line pending.comments).2 = earlier := by
  obtain ⟨⟨describing, split, -⟩, -⟩ := describes
  rw [split]

/-- The lines of a description are all collected before what they describe is read. -/
theorem yields_description {β : Type} {step : Pending → Reader (Round Pending β)}
    {advances : ∀ pending, (step pending).Advances Round.GoesOn} (takes : TakesComments step)
    {margin : List Char} (marginBlank : ∀ c ∈ margin, isBlank c = true) (marginLine : '\n' ∉ margin)
    {bodies : List (List Char)} (oneLine : ∀ body ∈ bodies, '\n' ∉ body) {tail : List Char}
    (stops : Stops isBlank tail) {earlier : List PendingComment} {fits : Prop}
    {good : List β → Cursor → Prop} {pending : Pending} {start : Cursor} {texts : List String}
    (rest : start.landed.rest
      = bodies.flatMap (fun body => '/' :: '/' :: (body ++ '\n' :: margin)) ++ tail)
    (describes : pending.Describes start.landed.place.line texts earlier)
    (next : ∀ pending start, start.landed.rest = tail →
      pending.Describes start.landed.place.line
        (texts ++ bodies.map rereadLine) earlier →
      (rounds step advances pending).Yields start fits good) :
    (rounds step advances pending).Yields start fits good := by
  -- What is pending describes the line that the cursor comes to next, one line further each time.
  induction bodies generalizing pending start texts with
  | nil =>
    refine next pending start rest ?_
    rw [List.map_nil, List.append_nil]
    exact describes
  | cons body others ih =>
    obtain ⟨bodyLine, othersLine⟩ := List.forall_mem_cons.mp oneLine
    have whole : start.landed.rest = commentMark true ++ (body ++ '\n' :: (margin
        ++ (others.flatMap (fun body => '/' :: '/' :: (body ++ '\n' :: margin)) ++ tail))) := by
      rw [rest, List.flatMap_cons]
      simp [commentMark]
    have ends : Stops (· ≠ '\n') ('\n' :: (margin
        ++ (others.flatMap (fun body => '/' :: '/' :: (body ++ '\n' :: margin)) ++ tail))) :=
      stops_cons (by decide) _
    refine (yields_rounds_next ?_).of_iff (iff_of_eq (true_and fits))
    refine (takes whole bodyLine ends).mono fun result after facts => ?_
    obtain ⟨⟨comment, rfl, known⟩, afterRest, afterLine⟩ := facts
    refine ⟨[], pending.add comment, rfl, ?_⟩
    have othersStop : Stops isBlank
        (others.flatMap (fun body => '/' :: '/' :: (body ++ '\n' :: margin)) ++ tail) := by
      cases others with
      | nil => exact stops
      | cons body others => exact stops_cons (by decide) _
    have gapBlank : ∀ c ∈ '\n' :: margin, isBlank c = true :=
      List.forall_mem_cons.mpr ⟨by decide, marginBlank⟩
    have landed := Cursor.landed_eq afterRest gapBlank othersStop
    have landedLine : after.landed.place.line = start.landed.place.line + 1 := by
      rw [landed, Cursor.pass, Position.line_advanceOver, afterLine, List.count_cons_self,
        List.count_eq_zero.mpr marginLine]
    have described := describes.add known
    rw [← landedLine] at described
    refine ih othersLine (by rw [landed]; rfl) described ?_
    intro pending start atTail describesAll
    refine next pending start atTail ?_
    rw [List.append_assoc] at describesAll
    exact describesAll

end Reader

end ApiDef
