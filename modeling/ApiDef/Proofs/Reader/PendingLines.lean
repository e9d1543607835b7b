import ApiDef.Proofs.Reader.Gap
import ApiDef.Proofs.Text.Describing
set_option autoImplicit false

/-!
# Pending comments and lines

The comments that are pending in front of a piece of code say what the lines above it say. The lines are
those of the whole text, and the comments were collected one by one.
-/

namespace ApiDef

open Text

/-!
## Cursors and lines
-/

/-- The lines of a text are those above the line of a cursor, the line that the cursor stands on behind
`before`, and the lines below. -/
structure Cursor.OnLine (cursor : Cursor) (lines above : List String) (before : List Char) : Prop where
  split : lines = above ++ ((before ++ cursor.rest).splitOn '\n').map String.ofList
  line : cursor.place.line = above.length + 1
  oneLine : '\n' ∉ before

namespace Cursor

theorem onLine_start (text : String) : (Cursor.start text).OnLine (lines text) [] [] :=
  ⟨rfl, rfl, List.not_mem_nil⟩

variable {cursor : Cursor} {lines above : List String} {before : List Char}

theorem OnLine.pass_char (on : cursor.OnLine lines above before) {c : Char} {cs : List Char}
    (rest : cursor.rest = c :: cs) (notLineFeed : c ≠ '\n') :
    (cursor.pass [c] cs).OnLine lines above (before ++ [c]) := by
  obtain ⟨split, line, oneLine⟩ := on
  refine ⟨?_, ?_, ?_⟩
  · rw [split, rest]
    simp [pass]
  · have same : (cursor.place.advance c).line = cursor.place.line := by
      rw [Position.advance, if_neg notLineFeed]
    exact same.trans line
  · simp [oneLine, notLineFeed.symm]

theorem OnLine.pass_lineFeed (on : cursor.OnLine lines above before) {cs : List Char}
    (rest : cursor.rest = '\n' :: cs) :
    (cursor.pass ['\n'] cs).OnLine lines (above ++ [String.ofList before]) [] := by
  obtain ⟨split, line, oneLine⟩ := on
  refine ⟨?_, ?_, List.not_mem_nil⟩
  · rw [split, rest, List.splitOn_append_cons_self_of_not_mem oneLine]
    simp [pass]
  · rw [List.length_append, List.length_singleton, ← line]
    rfl

theorem OnLine.pass_inLine (on : cursor.OnLine lines above before) {passed rest : List Char}
    (whole : cursor.rest = passed ++ rest) (inLine : '\n' ∉ passed) :
    (cursor.pass passed rest).OnLine lines above (before ++ passed) := by
  obtain ⟨split, line, oneLine⟩ := on
  refine ⟨?_, ?_, ?_⟩
  · rw [split, whole, List.append_assoc]
    rfl
  · rw [pass, Position.line_advanceOver, List.count_eq_zero.mpr inLine]
    exact line
  · simp [oneLine, inLine]

/-- A cursor further on stands on a line, too. -/
theorem OnLine.of_reaches (on : cursor.OnLine lines above before) {other : Cursor}
    (reaches : cursor.Reaches other) : ∃ above before, other.OnLine lines above before := by
  obtain ⟨passed, rest, place⟩ := reaches
  induction passed generalizing cursor above before with
  | nil =>
    obtain rfl : other = cursor := by
      cases other
      cases cursor
      rw [mk.injEq]
      exact ⟨rest.symm, place⟩
    exact ⟨above, before, on⟩
  | cons c passed ih =>
    by_cases lineFeed : c = '\n'
    · subst lineFeed
      exact ih (on.pass_lineFeed rest) rfl place
    · exact ih (on.pass_char rest lineFeed) rfl place

end Cursor

namespace Reader

/-- The pending comments that describe what stands on this line say what the lines above it say, down
from the last piece of code. If that ended on a line above, nothing but blanks stands in front on this
one. -/
structure Pending.Matches (pending : Pending) (above : List String) (before : List Char) : Prop where
  texts : (splitDescription (above.length + 1) pending.comments).1.reverse.map PendingComment.text
    = describingTexts (above.drop pending.lastCodeLine)
  earlier : ∀ comment ∈ pending.comments, comment.span.start.line ≤ above.length
  blank : pending.lastCodeLine ≤ above.length → ∀ c ∈ before, isBlank c = true

variable {pending : Pending} {lines above : List String} {before : List Char} {here : Cursor}

theorem splitDescription_nil_of_earlier {line : Nat} {comments : List PendingComment}
    (earlier : ∀ comment ∈ comments, comment.span.start.line + 1 < line) :
    (splitDescription line comments).1 = [] := by
  cases comments with
  | nil => rfl
  | cons comment others =>
    have different : comment.span.start.line + 1 ≠ line :=
      Nat.ne_of_lt (earlier comment List.mem_cons_self)
    simp [splitDescription, different]

/-- Behind a piece of code nothing is pending yet. -/
theorem matches_code (above : List String) (before : List Char) :
    (⟨[], above.length + 1⟩ : Pending).Matches above before := by
  refine ⟨?_, List.forall_mem_nil _, fun behind => absurd behind (Nat.not_succ_le_self _)⟩
  rw [List.drop_eq_nil_of_le (Nat.le_succ _)]
  rfl

theorem Pending.Matches.pass_char (matching : pending.Matches above before) {c : Char}
    (blank : isBlank c = true) : pending.Matches above (before ++ [c]) := by
  refine ⟨matching.texts, matching.earlier, fun behind => ?_⟩
  exact List.forall_mem_append.mpr
    ⟨matching.blank behind, List.forall_mem_singleton.mpr blank⟩

/-- A line without a comment ends every run of comments. -/
theorem Pending.Matches.pass_lineFeed (matching : pending.Matches above before) :
    pending.Matches (above ++ [String.ofList before]) [] := by
  obtain ⟨-, earlier, blank⟩ := matching
  have length : (above ++ [String.ofList before]).length = above.length + 1 := by simp
  have nothing :
      describingTexts ((above ++ [String.ofList before]).drop pending.lastCodeLine) = [] := by
    by_cases behind : pending.lastCodeLine ≤ above.length
    · rw [List.drop_append_of_le_length behind]
      exact describingTexts_concat_none (slashedLine?_blank (blank behind))
    · rw [List.drop_eq_nil_of_le (by omega)]
      rfl
  refine ⟨?_, fun comment member => ?_, fun _ => List.forall_mem_nil _⟩
  · rw [nothing, length, splitDescription_nil_of_earlier]
    · rfl
    · intro comment member
      have := earlier comment member
      omega
  · have := earlier comment member
    omega

theorem slashedLine?_comment (blank : ∀ c ∈ before, isBlank c = true) (slashed : Bool)
    (body : List Char) : slashedLine? (String.ofList (before ++ (commentMark slashed ++ body)))
      = if slashed then some (rereadLine body) else none := by
  cases slashed with
  | true => exact slashedLine?_slashed blank body
  | false => exact slashedLine?_hashed blank body

/-- A comment that is alone on its line goes on with the run if it has slashes, and ends it if not. -/
theorem Pending.Matches.add (matching : pending.Matches above before) {slashed : Bool}
    {body : List Char} {comment : PendingComment}
    (facts : CommentFacts (above.length + 1) pending.lastCodeLine slashed body comment) :
    (pending.add comment).Matches
      (above ++ [String.ofList (before ++ (commentMark slashed ++ body))]) [] := by
  obtain ⟨texts, earlier, blank⟩ := matching
  generalize same : String.ofList (before ++ (commentMark slashed ++ body)) = line
  have length : (above ++ [line]).length = above.length + 1 := by simp
  refine ⟨?_, fun other member => ?_, fun _ => List.forall_mem_nil _⟩
  · change (splitDescription _ (comment :: pending.comments)).1.reverse.map _
      = describingTexts ((above ++ [line]).drop pending.lastCodeLine)
    by_cases behind : pending.lastCodeLine ≤ above.length
    · have alone : comment.alone = true := facts.alone.trans (decide_eq_true (by omega))
      have content := slashedLine?_comment (blank behind) slashed body
      rw [same] at content
      rw [List.drop_append_of_le_length behind, length]
      cases slashed with
      | true =>
        rw [describingTexts_concat_some content, ← texts]
        simp [splitDescription, facts.slashed, alone, facts.line, facts.text]
      | false =>
        rw [describingTexts_concat_none content]
        simp [splitDescription, facts.slashed]
    · have shared : comment.alone = false := facts.alone.trans (decide_eq_false (by omega))
      rw [List.drop_eq_nil_of_le (by omega)]
      simp [splitDescription, shared, describingTexts]
  · rw [length]
    rcases List.mem_cons.mp member with rfl | inside
    · exact Nat.le_of_eq facts.line
    · exact Nat.le_succ_of_le (earlier other inside)

/-!
## Collecting
-/

/-- What is pending in front of a cursor is what the lines of the text say. -/
def Pending.CollectedAt (pending : Pending) (lines : List String) (here : Cursor) : Prop :=
  ∃ above before, here.OnLine lines above before ∧ pending.Matches above before

/-- The same once the blanks are skipped, if the text does not end with them. -/
def Pending.ReadyAt (pending : Pending) (lines : List String) (here : Cursor) : Prop :=
  here.landed.rest ≠ [] → pending.CollectedAt lines here.landed

theorem landed_of_blank {c : Char} {cs : List Char} (rest : here.rest = c :: cs)
    (blank : isBlank c = true) : (here.pass [c] cs).landed = here.landed := by
  simp [Cursor.landed, Cursor.pass, rest, blank]

theorem landed_of_stops (stops : Stops isBlank here.rest) : here.landed = here :=
  Cursor.landed_eq rfl (List.forall_mem_nil _) stops

theorem Pending.CollectedAt.landed (collected : pending.CollectedAt lines here) :
    pending.CollectedAt lines here.landed := by
  generalize same : here.rest = rest
  induction rest generalizing here with
  | nil => rwa [landed_of_stops (same ▸ stops_nil isBlank)]
  | cons c cs ih =>
    cases blank : isBlank c with
    | false => rwa [landed_of_stops (same ▸ stops_cons blank cs)]
    | true =>
      obtain ⟨above, before, on, matching⟩ := collected
      rw [← landed_of_blank same blank]
      refine ih ?_ rfl
      by_cases lineFeed : c = '\n'
      · subst lineFeed
        exact ⟨_, _, on.pass_lineFeed same, matching.pass_lineFeed⟩
      · exact ⟨_, _, on.pass_char same lineFeed, matching.pass_char blank⟩

theorem Pending.CollectedAt.ready (collected : pending.CollectedAt lines here) :
    pending.ReadyAt lines here :=
  fun _ => collected.landed

theorem collectedAt_start (text : String) :
    (⟨[], 0⟩ : Pending).CollectedAt (Text.lines text) (.start text) :=
  ⟨[], [], Cursor.onLine_start text, rfl, List.forall_mem_nil _, fun _ => List.forall_mem_nil _⟩

/-- Behind a piece of code nothing is pending yet. -/
theorem collectedAt_code {first : Cursor} (on : first.OnLine lines above before)
    (reaches : first.Reaches here) : (⟨[], here.place.line⟩ : Pending).CollectedAt lines here := by
  obtain ⟨above, before, onHere⟩ := on.of_reaches reaches
  refine ⟨above, before, onHere, ?_⟩
  rw [onHere.line]
  exact matches_code above before

theorem Pending.CollectedAt.add (collected : pending.CollectedAt lines here) {slashed : Bool}
    {body : List Char} {comment : PendingComment}
    (taken : here.rest.takeWhile (· ≠ '\n') = commentMark slashed ++ body)
    (facts : CommentFacts here.place.line pending.lastCodeLine slashed body comment) :
    (pending.add comment).ReadyAt lines here.atLineEnd := by
  intro goesOn
  obtain ⟨above, before, on, matching⟩ := collected
  rw [on.line] at facts
  have inLine := not_lineFeed_mem_takeWhile here.rest
  have onEnd : here.atLineEnd.OnLine lines above (before ++ here.rest.takeWhile (· ≠ '\n')) :=
    on.pass_inLine List.takeWhile_append_dropWhile.symm inLine
  cases ends : here.atLineEnd.rest with
  | nil =>
    rw [landed_of_stops (ends ▸ stops_nil isBlank)] at goesOn
    exact absurd ends goesOn
  | cons c cs =>
    obtain rfl : c = '\n' := by
      simpa using stops_dropWhile (· ≠ '\n') here.rest c cs ends
    rw [← landed_of_blank ends isBlank_lineFeed]
    have below := onEnd.pass_lineFeed ends
    rw [taken] at below
    exact Pending.CollectedAt.landed ⟨_, _, below, matching.add facts⟩

/-- What the pending comments say about the code here is what the lines say about it. -/
theorem Pending.CollectedAt.descriptionOf_split (collected : pending.CollectedAt lines here) :
    descriptionOf (splitDescription here.place.line pending.comments).1
      = gapDescription lines pending.lastCodeLine here.place.line := by
  obtain ⟨above, before, on, matching⟩ := collected
  have aboveHere : lines.take (here.place.line - 1) = above := by
    rw [on.line, Nat.add_sub_cancel, on.split, List.take_left]
  have texts := matching.texts
  rw [← on.line] at texts
  rw [gapDescription, aboveHere, ← texts, descriptionOf, List.isEmpty_map, List.isEmpty_reverse]

end Reader

end ApiDef
