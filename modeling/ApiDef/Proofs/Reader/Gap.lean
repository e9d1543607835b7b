import ApiDef.Proofs.Reader.Content
import ApiDef.Proofs.Reader.DescriptionText
set_option autoImplicit false

/-!
# Gaps with comments

What stands between two pieces of code is blanks and comments. Skipping it and collecting its comments
one by one lead to the same place.
-/

namespace ApiDef

open Text

namespace Cursor

/-- The cursor behind what is left of its line. -/
def atLineEnd (cursor : Cursor) : Cursor :=
  cursor.pass (cursor.rest.takeWhile (· ≠ '\n')) (cursor.rest.dropWhile (· ≠ '\n'))

theorem reaches_atLineEnd (cursor : Cursor) : cursor.Reaches cursor.atLineEnd :=
  reaches_pass List.takeWhile_append_dropWhile

/-- How much was passed says where a cursor is. -/
theorem Reaches.eq_pass {first second : Cursor} (reaches : first.Reaches second) {passed : List Char}
    (rest : first.rest = passed ++ second.rest) : second = first.pass passed second.rest := by
  obtain ⟨other, same, place⟩ := reaches
  obtain rfl : other = passed := List.append_cancel_right (same.symm.trans rest)
  rw [pass, ← place]

theorem Reaches.eq_atLineEnd {first second : Cursor} (reaches : first.Reaches second)
    (rest : second.rest = first.rest.dropWhile (· ≠ '\n')) : second = first.atLineEnd := by
  have whole : first.rest = first.rest.takeWhile (· ≠ '\n') ++ second.rest := by
    rw [rest, List.takeWhile_append_dropWhile]
  rw [reaches.eq_pass whole, rest]
  rfl

end Cursor

namespace Reader

/-- Behind a reader that comes to a known value only the next one counts. -/
theorem ensures_after {α β : Type} {first : Reader α} {next : α → Reader β} {start middle : Cursor}
    {value : α} {post : β → Cursor → List Question → Prop}
    (ran : first.run start = .done value middle []) (nextEnsures : (next value).Ensures middle post) :
    (first >>= next).Ensures start post := by
  intro result final asked both
  rw [run_andThen ran] at both
  exact nextEnsures _ _ _ both

/-- The reader comes to a value, whatever it asks on its way. -/
def Reads {α : Type} (reader : Reader α) (start : Cursor) (value : α) (stop : Cursor) : Prop :=
  ∃ asked, reader.run start = .done value stop asked

theorem Reads.reaches {α : Type} {reader : Reader α} {start stop : Cursor} {value : α}
    (reads : reader.Reads start value stop) : start.Reaches stop := by
  obtain ⟨asked, ran⟩ := reads
  exact reader.forward ran

theorem Yields.exists_reads {α : Type} {reader : Reader α} {start : Cursor}
    {good : α → Cursor → Prop} (yields : reader.Yields start True good) :
    ∃ value stop, reader.Reads start value stop ∧ good value stop := by
  unfold Yields at yields
  cases ran : reader.run start with
  | failed fault asked =>
    rw [ran] at yields
    exact absurd trivial yields.1
  | done value stop asked =>
    rw [ran] at yields
    exact ⟨value, stop, ⟨asked, ran⟩, yields.2⟩

theorem reads_bind_iff {α β : Type} {first : Reader α} {next : α → Reader β} {start stop : Cursor}
    {result : β} : (first >>= next).Reads start result stop
      ↔ ∃ value middle, first.Reads start value middle ∧ (next value).Reads middle result stop := by
  constructor
  · rintro ⟨asked, ran⟩
    rw [run_bind] at ran
    cases firstRan : first.run start with
    | failed => simp [firstRan] at ran
    | done value middle earlier =>
      simp only [firstRan] at ran
      obtain ⟨later, nextRan, -⟩ := Outcome.asking_eq_done ran
      exact ⟨value, middle, ⟨earlier, firstRan⟩, ⟨later, nextRan⟩⟩
  · rintro ⟨value, middle, ⟨earlier, firstRan⟩, later, nextRan⟩
    refine ⟨earlier ++ later, ?_⟩
    rw [run_bind, firstRan]
    dsimp only
    rw [nextRan]
    rfl

theorem reads_pure_iff {α : Type} {value result : α} {start stop : Cursor} :
    (pure value : Reader α).Reads start result stop ↔ result = value ∧ stop = start := by
  constructor
  · rintro ⟨asked, ran⟩
    obtain ⟨rfl, rfl, -⟩ := Outcome.done.inj ran
    exact ⟨rfl, rfl⟩
  · rintro ⟨rfl, rfl⟩
    exact ⟨[], rfl⟩

theorem reads_ask_bind {β : Type} {question : Question} {next : Unit → Reader β}
    {start stop : Cursor} {result : β} :
    (ask question >>= next).Reads start result stop ↔ (next ()).Reads start result stop := by
  rw [reads_bind_iff]
  constructor
  · rintro ⟨_, _, ⟨asked, ran⟩, later⟩
    obtain ⟨-, rfl, -⟩ := Outcome.done.inj ran
    exact later
  · exact fun later => ⟨_, _, ⟨_, run_ask question start⟩, later⟩

theorem reads_look_bind {α β : Type} {f : List Char → α} {next : α → Reader β}
    {start stop : Cursor} {result : β} :
    (look f >>= next).Reads start result stop ↔ (next (f start.rest)).Reads start result stop := by
  rw [reads_bind_iff]
  constructor
  · rintro ⟨_, _, ⟨asked, ran⟩, later⟩
    obtain ⟨rfl, rfl, -⟩ := Outcome.done.inj ran
    exact later
  · exact fun later => ⟨_, _, ⟨_, run_look f start⟩, later⟩

theorem reads_of_spanned {α : Type} {reader : Reader α} {start stop : Cursor} {value : α} {span : Span}
    (read : (spanned reader).Reads start (value, span) stop) : reader.Reads start value stop := by
  obtain ⟨_, _, ⟨_, atStart⟩, read⟩ := reads_bind_iff.mp read
  obtain ⟨-, rfl, -⟩ := Outcome.done.inj atStart
  obtain ⟨found, _, readValue, read⟩ := reads_bind_iff.mp read
  obtain ⟨_, _, ⟨_, atStop⟩, read⟩ := reads_bind_iff.mp read
  obtain ⟨-, rfl, -⟩ := Outcome.done.inj atStop
  obtain ⟨same, rfl⟩ := reads_pure_iff.mp read
  obtain ⟨rfl, -⟩ := Prod.mk.inj same
  exact readValue

theorem reads_attempt_some {α : Type} {reader : Reader (Option α)} {start stop : Cursor} {value : α}
    (read : reader.Reads start (some value) stop) : (attempt reader).Reads start (some value) stop := by
  obtain ⟨asked, ran⟩ := read
  refine ⟨asked, ?_⟩
  simp only [attempt, ran]

theorem reads_attempt_none {α : Type} {reader : Reader (Option α)} {start stop : Cursor}
    (read : reader.Reads start none stop) : (attempt reader).Reads start none start := by
  obtain ⟨asked, ran⟩ := read
  refine ⟨asked, ?_⟩
  simp only [attempt, ran]

theorem eq_of_reads_eat_false {c : Char} {start stop : Cursor} (read : (eat c).Reads start false stop) :
    stop = start := by
  obtain ⟨asked, ran⟩ := read
  simp only [eat, eatText] at ran
  split at ran
  next => cases ran
  next => exact (Outcome.done.inj ran).2.1.symm

theorem not_reads_of_failed {α : Type} {reader : Reader α} {start stop : Cursor} {value : α}
    {fault : Fault} {asked : List Question} (failed : reader.run start = .failed fault asked) :
    ¬reader.Reads start value stop := by
  rintro ⟨_, ran⟩
  rw [failed] at ran
  cases ran

theorem ensures_reads {α : Type} (reader : Reader α) (start : Cursor) :
    reader.Ensures start fun value after _ => reader.Reads start value after :=
  fun _ _ asked ran => ⟨asked, ran⟩

theorem reads_skipBlanks (start : Cursor) : skipBlanks.Reads start () start.landed :=
  ⟨[], run_skipBlanks_landed start⟩

theorem exists_commentMark {cs : List Char} (starts : startsComment cs = true) :
    ∃ slashed others, cs = commentMark slashed ++ others := by
  unfold startsComment at starts
  split at starts
  next others => exact ⟨false, others, rfl⟩
  next others => exact ⟨true, others, rfl⟩
  next => cases starts

theorem not_lineFeed_of_mem_commentMark (slashed : Bool) :
    ∀ c ∈ commentMark slashed, decide (c ≠ '\n') = true := by
  apply List.all_eq_true.mp
  cases slashed <;> decide

theorem not_lineFeed_mem_takeWhile (cs : List Char) : '\n' ∉ cs.takeWhile (· ≠ '\n') := by
  intro member
  simpa using List.all_eq_true.mp List.all_takeWhile _ member

/-- A comment that starts here is read to the end of its line. -/
theorem exists_run_comment? (lastCodeLine : Nat) {start : Cursor}
    (starts : startsComment start.rest = true) :
    ∃ slashed body comment, start.rest.takeWhile (· ≠ '\n') = commentMark slashed ++ body
      ∧ (comment? lastCodeLine).run start = .done (some comment) start.atLineEnd []
      ∧ CommentFacts start.place.line lastCodeLine slashed body comment := by
  obtain ⟨slashed, others, rest⟩ := exists_commentMark starts
  have markInLine := not_lineFeed_of_mem_commentMark slashed
  have taken : start.rest.takeWhile (· ≠ '\n')
      = commentMark slashed ++ others.takeWhile (· ≠ '\n') := by
    rw [rest, List.takeWhile_append_of_pos markInLine]
  have left : start.rest.dropWhile (· ≠ '\n') = others.dropWhile (· ≠ '\n') := by
    rw [rest, List.dropWhile_append_of_pos markInLine]
  have oneLine := not_lineFeed_mem_takeWhile others
  have whole : start.rest = commentMark slashed
      ++ (others.takeWhile (· ≠ '\n') ++ others.dropWhile (· ≠ '\n')) := by
    rw [rest, List.takeWhile_append_dropWhile]
  have yields := yields_comment? lastCodeLine whole oneLine (stops_dropWhile (· ≠ '\n') others)
  obtain ⟨_, after, ⟨asked, ran⟩, ⟨comment, rfl, facts⟩, afterRest, -⟩ := yields.exists_reads
  obtain rfl := (quiet_comment? lastCodeLine).asked_eq_nil ran
  have behind := ((comment? lastCodeLine).forward ran).eq_atLineEnd (by rw [afterRest, left])
  exact ⟨slashed, _, comment, taken, by rw [← behind, ran], facts⟩

/-!
## Skipping
-/

theorem landed_landed (start : Cursor) : start.landed.landed = start.landed :=
  Cursor.landed_eq rfl (List.forall_mem_nil _) (stops_dropWhile isBlank start.rest)

theorem run_triviaRound (start : Cursor) :
    (triviaRound ()).run start
      = if startsComment start.landed.rest then .done (.next [] ()) start.landed.atLineEnd []
        else .done (.stop []) start.landed [] := by
  rw [triviaRound, run_andThen (run_skipBlanks_landed start)]
  split
  next starts =>
    have skipped : skipComment.run start.landed = .done true start.landed.atLineEnd [] := by
      simp only [skipComment, starts, if_true]
      rfl
    rw [run_andThen skipped]
    rfl
  next noComment =>
    have skipped : skipComment.run start.landed = .done false start.landed [] := by
      simp [skipComment, noComment]
    rw [run_andThen skipped]
    rfl

theorem run_skipTrivia_landed (start : Cursor) :
    skipTrivia.run start.landed = skipTrivia.run start := by
  have round : (triviaRound ()).run start.landed = (triviaRound ()).run start := by
    rw [run_triviaRound, run_triviaRound, landed_landed]
  rw [skipTrivia, run_bind, run_bind, run_rounds, run_rounds triviaRound _ _ start, round]

/-- A comment and the blanks in front of it can be skipped first. -/
theorem run_skipTrivia_comment {start : Cursor} (starts : startsComment start.landed.rest = true) :
    skipTrivia.run start.landed.atLineEnd = skipTrivia.run start := by
  rw [skipTrivia, run_bind, run_bind, run_rounds triviaRound _ _ start, run_triviaRound, if_pos starts]
  dsimp only
  rw [Outcome.map_nil_append, Outcome.asking_nil]

theorem reads_skipTrivia_of_code {start : Cursor}
    (noComment : startsComment start.landed.rest = false) :
    skipTrivia.Reads start () start.landed :=
  ⟨[], run_skipTrivia List.takeWhile_append_dropWhile.symm
    (fun _ member => List.all_eq_true.mp List.all_takeWhile _ member)
    ⟨stops_dropWhile isBlank start.rest, noComment⟩⟩

end Reader

end ApiDef
