import ApiDef.Proofs.Reader.DocumentContent
import ApiDef.Proofs.Reader.DocumentStep
import ApiDef.Proofs.Reader.DocumentsInParallel
import ApiDef.Proofs.Reader.PendingLines
import ApiDef.Proofs.Text.Locations
set_option autoImplicit false

/-!
# Documents in sequence

A document that comes to its end is read by the same rounds whatever stands behind it, and what stands
behind it is read on from there. Comments that are still pending at the seam stand too far above the next
declaration to describe it, so they come out in front of everything behind them.
-/

namespace ApiDef

open Text

/-!
## Respellings without carriage returns
-/

namespace Text.Respelling

variable {spelling : Respelling} {first second : Cursor}

/-- More lines stand behind the text. -/
def followedBy (later : List Char) : Respelling :=
  ⟨false, 0, '\n' :: later, .inr ⟨later, rfl⟩⟩

/-- The text starts further down. -/
def moved (lines : Nat) : Respelling :=
  ⟨false, lines, [], breaks_nil⟩

theorem text_of_plain (plain : spelling.returns = false) (cs : List Char) :
    spelling.text cs = cs ++ spelling.tail := by
  have char : ∀ c, spelling.char c = [c] := by
    intro c
    simp [Respelling.char, plain]
  rw [text, chars, funext char, List.flatMap_singleton']

/-- Where a cursor of the text stands in the respelled text. -/
def cursor (spelling : Respelling) (cursor : Cursor) : Cursor :=
  ⟨spelling.text cursor.rest, cursor.place.down spelling.lines⟩

theorem near_cursor (plain : spelling.returns = false) (cursor : Cursor) :
    spelling.Near cursor (spelling.cursor cursor) := by
  refine .aligned ⟨rfl, rfl, fun returns => ?_⟩
  rw [plain] at returns
  cases returns

theorem Near.eq_cursor (near : spelling.Near first second) (plain : spelling.returns = false) :
    second = spelling.cursor first := by
  cases near with
  | aligned aligned => rw [cursor, ← aligned.rest, ← aligned.place]
  | behindReturn returns =>
    rw [plain] at returns
    cases returns

end Text.Respelling

/-- Two lines below a text a line starts. -/
theorem Text.Position.advanceOver_origin_lineFeeds (cs : List Char) :
    Position.origin.advanceOver (cs ++ ['\n', '\n']) = Position.origin.down (cs.count '\n' + 2) := by
  rw [advanceOver_append, advanceOver_origin]
  simp only [advanceOver_cons, advanceOver_nil, advance, behind, down, origin, if_true, mk.injEq, and_true]
  omega

/-- The item of a text that starts further down. -/
def Item.down (lines : Nat) (item : Item) : Item :=
  ⟨item.entity, item.span.down lines⟩

theorem Item.map_down_zero (items : List Item) : items.map (Item.down 0) = items :=
  List.map_id items

/-- Without carriage returns comments do not grow. -/
theorem Item.eq_map_down {spelling : Respelling} (plain : spelling.returns = false) {items again : List Item}
    (follow : List.Forall₂ (Item.Follows spelling) items again) :
    again = items.map (Item.down spelling.lines) := by
  induction follow with
  | nil => rfl
  | @cons item copy _ _ here _ ih =>
    have same : copy = item.down spelling.lines := by
      rw [Item.down, ← here.entity, ← here.span (.inl plain)]
    rw [List.map_cons, ih, same]

namespace Reader

open Respelling (followedBy moved)

variable (grammar : Grammar) {pending more : Pending} {start last : Cursor} {later : List Char}

/-!
## What stands behind a document
-/

theorem follows_followedBy (pending : Pending) : pending.Follows (followedBy later) pending := by
  constructor
  · apply List.forall₂_same.mpr
    intro comment _
    exact ⟨rfl, rfl, rfl, rfl, rfl, fun _ => rfl⟩
  · rfl

theorem Pending.Follows.eq (follows : pending.Follows (followedBy later) more) : more = pending := by
  have each : ∀ comment copy, PendingComment.Follows (followedBy later) comment copy → comment = copy := by
    intro comment copy here
    have span : comment.span = copy.span := (congrArg₂ Span.mk here.start (here.stop rfl)).symm
    rw [PendingComment.mk.injEq]
    exact ⟨here.text.symm, here.slashed.symm, here.alone.symm, span⟩
  have comments := List.forall₂_eq_eq_eq ▸ follows.comments.imp each
  rw [Pending.mk.injEq]
  exact ⟨comments.symm, follows.lastCodeLine⟩

/-- A round that goes on does not look behind the document. -/
theorem run_documentRound_followedBy {found : List Item} {further : Pending} {middle : Cursor}
    {asked : List Question}
    (ran : (documentRound grammar pending).run start = .done (.next found further) middle asked) :
    (documentRound grammar pending).run ((followedBy later).cursor start)
      = .done (.next found further) ((followedBy later).cursor middle) asked := by
  have follows : pending.Follows (followedBy later) pending := follows_followedBy pending
  have parallel := inParallel_documentRound grammar follows start _ (Respelling.near_cursor rfl start)
  rw [ran] at parallel
  generalize (documentRound grammar pending).run ((followedBy later).cursor start) = outcome at parallel ⊢
  cases parallel with
  | lost _ lost => exact absurd trivial lost.1
  | @done _ again _ behind _ inStep =>
    obtain ⟨same, near⟩ := inStep
    cases again with
    | stop => cases same
    | next others state =>
      obtain ⟨items, states⟩ := same
      obtain rfl := states.eq
      obtain rfl := near.eq_cursor rfl
      obtain rfl := Item.eq_map_down rfl items
      rw [followedBy, Question.map_down_zero, Item.map_down_zero]

/-- What is pending stands on the lines up to this one. -/
structure Pending.UpTo (pending : Pending) (line : Nat) : Prop where
  comments : ∀ comment ∈ pending.comments, comment.span.start.line ≤ line
  codeLine : pending.lastCodeLine ≤ line

theorem Pending.UpTo.mono {line below : Nat} (upTo : pending.UpTo line) (le : line ≤ below) :
    pending.UpTo below :=
  ⟨fun comment member => (upTo.comments comment member).trans le, upTo.codeLine.trans le⟩

/-- Nothing is pending from below the place that a round has come to. -/
theorem DocumentStep.upTo {grammar : Grammar} {found : List Item} {further : Pending} {after : Cursor}
    {asked : List Question} (step : DocumentStep grammar pending start (.next found further) after asked)
    (upTo : pending.UpTo start.place.line) : further.UpTo after.place.line := by
  cases step with
  | comment starts taken facts line span =>
    apply Pending.UpTo.mono _ (Cursor.reaches_atLineEnd start).line_le
    constructor
    · intro comment member
      rcases List.mem_cons.mp member with rfl | inside
      · rw [span]
      · exact upTo.comments comment inside
    · exact upTo.codeLine
  | declaration => exact ⟨List.forall_mem_nil _, Nat.le_refl _⟩

/-- A document that comes to its end leaves some comments pending there. Whatever stands behind it, the
same rounds lead to that place, and the rest is read on from there. -/
theorem exists_last {items : List Item} {after : Cursor} {asked : List Question}
    (upTo : pending.UpTo start.place.line)
    (ran : (documentFrom grammar pending).run start = .done items after asked) :
    ∃ front last still, start.Reaches last ∧ last.landed.rest = [] ∧ still.UpTo last.place.line
      ∧ items = front ++ commentItems still.comments
      ∧ ∀ later, (documentFrom grammar pending).run ((followedBy later).cursor start)
        = (((documentFrom grammar still).run ((followedBy later).cursor last)).asking asked).map
            (front ++ ·) := by
  change runRounds _ _ pending start = _ at ran
  fun_induction runRounds (documentRound grammar) (advances_documentRound grammar) pending start
    generalizing items asked with
  | case1 => cases ran
  | case2 pending start found middle earlier result =>
    obtain ⟨rfl, rfl, rfl⟩ := Outcome.done.inj ran
    cases ensures_documentRound grammar pending start _ _ _ result with
    | ended rest =>
      -- The round that ends is not taken over: in the longer text it may go on.
      refine ⟨[], start, pending, .refl start, rest, upTo, rfl, fun later => ?_⟩
      rw [Outcome.map_nil_append, Outcome.asking_nil]
  | case3 pending start found further middle earlier result ih =>
    obtain ⟨others, askedLater, inner, rfl, rfl⟩ := Outcome.joined_eq_done ran
    have step := ensures_documentRound grammar pending start _ _ _ result
    have reaches := (documentRound grammar pending).forward result
    obtain ⟨front, last, still, reached, ended, stillUpTo, rfl, goesOn⟩ :=
      ih (step.upTo (upTo.mono start.line_le_landed)) inner
    refine ⟨found ++ front, last, still, reaches.trans reached, ended, stillUpTo, ?_, fun later => ?_⟩
    · rw [List.append_assoc]
    · rw [documentFrom, run_rounds, run_documentRound_followedBy grammar result]
      dsimp only
      rw [← documentFrom, goesOn, Outcome.map_append_asking]

/-!
## What is read behind the seam
-/

/-- Blanks in front of a document do not matter. -/
theorem run_documentFrom_landed (start : Cursor) :
    (documentFrom grammar pending).run start.landed = (documentFrom grammar pending).run start := by
  have round : (documentRound grammar pending).run start.landed
      = (documentRound grammar pending).run start := by
    rw [documentRound, run_andThen (run_skipBlanks_landed _), run_andThen (run_skipBlanks_landed start),
      landed_landed]
  rw [documentFrom, run_rounds, run_rounds _ _ _ start, round]

/-- Behind the blanks at the seam the later document starts on a line of its own. -/
theorem landed_followedBy {text later : String} (reached : (Cursor.start text).Reaches last)
    (ended : last.landed.rest = []) :
    ((followedBy ('\n' :: later.toList)).cursor last).landed
      = ((moved (text.toList.count '\n' + 2)).cursor (.start later)).landed := by
  obtain ⟨passed, whole, place⟩ := reached
  have seam : last.place.advanceOver (last.rest ++ ['\n', '\n'])
      = Position.origin.down (text.toList.count '\n' + 2) := by
    have whole : text.toList = passed ++ last.rest := whole
    rw [← Position.advanceOver_origin_lineFeeds, whole, place, ← Position.advanceOver_append,
      List.append_assoc]
    rfl
  have blank : ∀ c ∈ last.rest ++ ['\n', '\n'] ++ later.toList.takeWhile isBlank, isBlank c = true := by
    rw [List.forall_mem_append, List.forall_mem_append]
    refine ⟨⟨List.dropWhile_eq_nil_iff.mp ended, List.all_eq_true.mp (by decide)⟩, ?_⟩
    exact fun _ member => List.all_eq_true.mp List.all_takeWhile _ member
  have here : ((followedBy ('\n' :: later.toList)).cursor last).rest
      = last.rest ++ ['\n', '\n'] ++ later.toList.takeWhile isBlank ++ later.toList.dropWhile isBlank := by
    rw [List.append_assoc, List.takeWhile_append_dropWhile, List.append_assoc]
    exact Respelling.text_of_plain rfl last.rest
  have there : ((moved (text.toList.count '\n' + 2)).cursor (.start later)).rest = later.toList :=
    (Respelling.text_of_plain rfl later.toList).trans (List.append_nil _)
  have place : ((followedBy ('\n' :: later.toList)).cursor last).place = last.place := rfl
  rw [Cursor.landed_eq here blank (stops_dropWhile isBlank _), Cursor.landed, there, Cursor.pass,
    Cursor.pass, place, Position.advanceOver_append, seam]
  rfl

/-!
## Comments that are pending at the seam
-/

theorem splitDescription_older {line : Nat} {older : List PendingComment}
    (earlier : ∀ comment ∈ older, comment.span.start.line + 1 < line) :
    splitDescription line older = ([], older) := by
  have none := splitDescription_nil_of_earlier earlier
  have all := splitDescription_append line older
  rw [none] at all
  exact Prod.ext none all

/-- Comments above a line without comments describe nothing below it. -/
theorem splitDescription_append_older {floor line : Nat} {comments older : List PendingComment}
    (above : ∀ comment ∈ older, comment.span.start.line < floor)
    (below : ∀ comment ∈ comments, floor < comment.span.start.line) (onLine : floor < line) :
    splitDescription line (comments ++ older)
      = ((splitDescription line comments).1, (splitDescription line comments).2 ++ older) := by
  induction comments generalizing line with
  | nil =>
    apply splitDescription_older
    intro comment member
    exact Nat.lt_of_le_of_lt (above comment member) onLine
  | cons comment earlier ih =>
    obtain ⟨first, rest⟩ := List.forall_mem_cons.mp below
    rw [List.cons_append, splitDescription, splitDescription]
    split
    · rw [ih rest first]
    · rfl

theorem commentItems_append (comments older : List PendingComment) :
    commentItems (comments ++ older) = commentItems older ++ commentItems comments := by
  rw [commentItems, List.reverse_append, List.map_append]
  rfl

/-- One state has more comments than another one, older ones from above the line `floor`. Everything else
happens below it. -/
structure Pending.Extends (floor : Nat) (older : List PendingComment) (pending more : Pending) : Prop where
  comments : more.comments = pending.comments ++ older
  above : ∀ comment ∈ older, comment.span.start.line < floor
  below : ∀ comment ∈ pending.comments, floor < comment.span.start.line
  codeLine : pending.lastCodeLine ≤ floor
  moreCodeLine : more.lastCodeLine ≤ floor

section

variable {floor : Nat} {older : List PendingComment}

theorem Pending.Extends.add (extended : pending.Extends floor older more) {comment : PendingComment}
    (below : floor < comment.span.start.line) :
    (pending.add comment).Extends floor older (more.add comment) := by
  constructor
  · exact congrArg (comment :: ·) extended.comments
  · exact extended.above
  · exact List.forall_mem_cons.mpr ⟨below, extended.below⟩
  · exact extended.codeLine
  · exact extended.moreCodeLine

/-- Below the last piece of code it does not matter how far above that is. -/
theorem run_comment?_below {codeLine other : Nat} (below : codeLine < start.place.line)
    (otherBelow : other < start.place.line) :
    (comment? codeLine).run start = (comment? other).run start := by
  rw [comment?_eq, comment?_eq, run_andThen (run_here start), run_andThen (run_here start)]
  simp only [commentBehindMark, below, otherBelow]

theorem run_documentRound_ended (ended : start.landed.rest = []) :
    (documentRound grammar pending).run start
      = .done (.stop (commentItems pending.comments)) start.landed [] := by
  rw [documentRound, run_andThen (run_skipBlanks_landed start), run_andThen (run_look _ _), ended]
  rfl

theorem run_documentRound_comment {comment : PendingComment} {after : Cursor}
    (starts : startsComment start.landed.rest = true)
    (ran : (comment? pending.lastCodeLine).run start.landed = .done (some comment) after []) :
    (documentRound grammar pending).run start = .done (.next [] (pending.add comment)) after [] := by
  have goesOn : start.landed.rest.isEmpty = false := by
    obtain ⟨c, others, rest, -⟩ := exists_of_startsComment starts
    rw [rest]
    rfl
  rw [documentRound, run_andThen (run_skipBlanks_landed start), run_andThen (run_look _ _), goesOn]
  exact run_andThen ran

theorem run_documentRound_declaration {entity : Entity} {stop : Cursor} {asked : List Question}
    (noComment : startsComment start.landed.rest = false)
    (starts : startsDeclaration start.landed.rest = true)
    (ran : (declaration grammar).run start.landed = .done entity stop asked) :
    (documentRound grammar pending).run start
      = .done (.next (commentItems (splitDescription start.landed.place.line pending.comments).2
          ++ [⟨entity.describe
              (descriptionOf (splitDescription start.landed.place.line pending.comments).1),
            ⟨start.landed.place, stop.place⟩⟩]) ⟨[], stop.place.line⟩) stop asked := by
  have goesOn : start.landed.rest.isEmpty = false :=
    List.isEmpty_eq_false_iff.mpr (ne_nil_of_startsDeclaration starts)
  rw [documentRound, run_andThen (run_skipBlanks_landed start), run_andThen (run_look _ _), goesOn]
  refine (run_andThen (run_comment?_none _ noComment)).trans ?_
  refine (run_andThen (run_look _ _)).trans ?_
  rw [starts]
  refine (run_andThen (run_here _)).trans ?_
  rw [run_bind, ran]
  exact congrArg (Outcome.done _ _) (List.append_nil asked)

/-- Older comments come out in front of everything that is read below them. -/
theorem run_documentFrom_extends {items : List Item} {after : Cursor} {asked : List Question}
    (extended : pending.Extends floor older more) (below : floor < start.landed.place.line)
    (ran : (documentFrom grammar pending).run start = .done items after asked) :
    (documentFrom grammar more).run start = .done (commentItems older ++ items) after asked := by
  change runRounds _ _ pending start = _ at ran
  fun_induction runRounds (documentRound grammar) (advances_documentRound grammar) pending start
    generalizing more items asked with
  | case1 => cases ran
  | case2 pending start found middle earlier result =>
    obtain ⟨rfl, rfl, rfl⟩ := Outcome.done.inj ran
    cases ensures_documentRound grammar pending start _ _ _ result with
    | ended rest =>
      rw [documentFrom, run_rounds, run_documentRound_ended grammar rest]
      dsimp only
      rw [extended.comments, commentItems_append]
  | case3 pending start found further middle earlier result ih =>
    obtain ⟨others, askedLater, inner, rfl, rfl⟩ := Outcome.joined_eq_done ran
    rw [documentFrom, run_rounds]
    have reaches := (documentRound grammar pending).forward result
    cases ensures_documentRound grammar pending start _ _ _ result with
    | @comment _ _ comment starts _ _ _ span =>
      obtain ⟨-, -, again, -, here, -⟩ := exists_run_comment? pending.lastCodeLine starts
      have sameRound := (run_documentRound_comment grammar starts here).symm.trans result
      have sameState := (Round.next.inj (Outcome.done.inj sameRound).1).2
      obtain rfl : again = comment := (List.cons.inj (congrArg Pending.comments sameState)).1
      have onLine : floor < again.span.start.line := by
        rw [span]
        exact below
      have belowNext := (below.trans_le (Cursor.reaches_atLineEnd _).line_le).trans_le
        (Cursor.line_le_landed _)
      have further := ih (extended.add onLine) belowNext inner
      rw [run_comment?_below (extended.codeLine.trans_lt below)
        (extended.moreCodeLine.trans_lt below)] at here
      rw [run_documentRound_comment grammar starts here]
      dsimp only
      rw [← documentFrom, further]
      rfl
    | declaration noComment starts read =>
      rw [run_documentRound_declaration grammar noComment starts read, extended.comments,
        splitDescription_append_older extended.above extended.below below, commentItems_append]
      -- The declaration leaves nothing pending, so behind it both states are the same.
      have later : (documentFrom grammar ⟨[], middle.place.line⟩).run middle
        = .done others _ askedLater := inner
      dsimp only
      rw [← documentFrom, later]
      simp [Outcome.asking, Outcome.map]

end

/-!
## The seam
-/

/-- A document that starts further down is read with everything moved there. -/
theorem run_documentFrom_moved {items : List Item} {after : Cursor} {asked : List Question} (lines : Nat)
    (ran : (document grammar).run start = .done items after asked) :
    ∃ last, (documentFrom grammar ⟨[], lines⟩).run ((moved lines).cursor start)
      = .done (items.map (Item.down lines)) last (asked.map (Question.down lines)) := by
  have follows : Pending.Follows (moved lines) ⟨[], 0⟩ ⟨[], lines⟩ := ⟨.nil, (Nat.zero_add lines).symm⟩
  have parallel := inParallel_documentFrom grammar rfl follows start _
    (Respelling.near_cursor rfl start)
  rw [show (documentFrom grammar ⟨[], 0⟩).run start = .done items after asked from ran] at parallel
  generalize (documentFrom grammar ⟨[], lines⟩).run ((moved lines).cursor start) = outcome at parallel ⊢
  cases parallel with
  | lost goesOn => exact absurd rfl goesOn
  | @done _ again _ behind _ both =>
    obtain rfl := Item.eq_map_down rfl both.1
    exact ⟨behind, rfl⟩

theorem line_lt_of_reaches {text : String} (reached : (Cursor.start text).Reaches last) :
    last.place.line < text.toList.count '\n' + 2 := by
  obtain ⟨passed, whole, place⟩ := reached
  have whole : text.toList = passed ++ last.rest := whole
  rw [place, Position.line_advanceOver, whole, List.count_append]
  change 1 + _ < _
  omega

/-- Two documents with an empty line between them are one document. -/
theorem run_document_append {text later : String} {items laterItems : List Item} {after laterAfter : Cursor}
    {asked laterAsked : List Question}
    (ran : (document grammar).run (.start text) = .done items after asked)
    (laterRan : (document grammar).run (.start later) = .done laterItems laterAfter laterAsked) :
    ∃ last, (document grammar).run (.start (text ++ "\n\n" ++ later))
      = .done (items ++ laterItems.map (Item.down (text.toList.count '\n' + 2))) last
        (asked ++ laterAsked.map (Question.down (text.toList.count '\n' + 2))) := by
  have whole : Cursor.start (text ++ "\n\n" ++ later)
      = (followedBy ('\n' :: later.toList)).cursor (.start text) := by
    have lineFeeds : "\n\n".toList = ['\n', '\n'] := by decide
    rw [Cursor.start, String.toList_append, String.toList_append, List.append_assoc, lineFeeds, Cursor.start,
      Respelling.cursor, Respelling.text_of_plain rfl]
    rfl
  obtain ⟨front, seam, still, reached, ended, upTo, rfl, goesOn⟩ :=
    exists_last grammar ⟨List.forall_mem_nil _, Nat.zero_le _⟩ ran
  obtain ⟨last, moved⟩ := run_documentFrom_moved grammar (text.toList.count '\n' + 2) laterRan
  have extended : Pending.Extends (text.toList.count '\n' + 2) still.comments
      ⟨[], text.toList.count '\n' + 2⟩ still := by
    have seamLine : seam.place.line < text.toList.count '\n' + 2 := line_lt_of_reaches reached
    constructor
    · rfl
    · exact fun comment member => (upTo.comments comment member).trans_lt seamLine
    · exact List.forall_mem_nil _
    · exact Nat.le_refl _
    · exact (upTo.codeLine.trans_lt seamLine).le
  have below : text.toList.count '\n' + 2
      < ((Respelling.moved (text.toList.count '\n' + 2)).cursor (.start later)).landed.place.line := by
    refine Nat.lt_of_lt_of_le ?_ (Cursor.line_le_landed _)
    exact Nat.lt_add_of_pos_left Nat.one_pos
  have read := run_documentFrom_extends grammar extended below moved
  rw [← run_documentFrom_landed, ← landed_followedBy reached ended, run_documentFrom_landed] at read
  refine ⟨last, ?_⟩
  rw [whole]
  refine (goesOn _).trans ?_
  rw [read]
  simp [Outcome.asking, Outcome.map]

end Reader

end ApiDef
