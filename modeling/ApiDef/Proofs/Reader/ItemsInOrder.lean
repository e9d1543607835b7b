import ApiDef.Proofs.Reader.DeclarationReplayed
import ApiDef.Proofs.Reader.DocumentContent
import ApiDef.Proofs.Reader.DocumentStep
import ApiDef.Proofs.Reader.PendingLines
import ApiDef.Proofs.Text.Slice
set_option autoImplicit false

/-!
# Items in order

The items of a document are read one behind the other, each from where its span starts to where it
stops. So what a span covers is read again as a document of its own, which contains that one item.
-/

namespace ApiDef

open Text

/-- An item is read from one cursor up to another. -/
inductive Item.ReadFrom (grammar : Grammar) (start : Cursor) : Item → Cursor → Prop where
  | comment {slashed : Bool} {body : List Char}
      (line : start.rest.takeWhile (· ≠ '\n') = Reader.commentMark slashed ++ body) :
      ReadFrom grammar start ⟨.comment (rereadLine body), ⟨start.place, start.atLineEnd.place⟩⟩
        start.atLineEnd
  | declaration {entity : Entity} {stop : Cursor} (description : Option String)
      (noComment : startsComment start.rest = false)
      (starts : Reader.startsDeclaration start.rest = true)
      (read : (Reader.declaration grammar).Reads start entity stop) :
      ReadFrom grammar start ⟨entity.describe description, ⟨start.place, stop.place⟩⟩ stop

/-- Items are read one behind the other on the way from one cursor to another. -/
def ReadInOrder (grammar : Grammar) : Cursor → List Item → Cursor → Prop
  | first, [], last => first.Reaches last
  | first, item :: items, last => ∃ start stop, first.Reaches start ∧ item.ReadFrom grammar start stop
    ∧ ReadInOrder grammar stop items last

namespace Item.ReadFrom

variable {grammar : Grammar} {start stop : Cursor} {item : Item}

theorem span (read : item.ReadFrom grammar start stop) : item.span = ⟨start.place, stop.place⟩ := by
  cases read with
  | comment => rfl
  | declaration => rfl

theorem reaches (read : item.ReadFrom grammar start stop) : start.Reaches stop := by
  cases read with
  | comment => exact Cursor.reaches_atLineEnd start
  | declaration _ _ _ read => exact read.reaches

/-- At least one character belongs to an item. -/
theorem exists_passed (read : item.ReadFrom grammar start stop) :
    ∃ passed, start.rest = passed ++ stop.rest ∧ passed ≠ [] := by
  cases read with
  | @comment slashed body line =>
    refine ⟨start.rest.takeWhile (· ≠ '\n'), List.takeWhile_append_dropWhile.symm, ?_⟩
    rw [line]
    cases slashed <;> exact List.cons_ne_nil _ _
  | declaration _ _ _ read =>
    obtain ⟨asked, ran⟩ := read
    have shorter := Reader.advances_declaration grammar _ _ _ _ ran trivial
    obtain ⟨passed, rest, -⟩ := (Reader.declaration grammar).forward ran
    refine ⟨passed, rest, ?_⟩
    rintro rfl
    rw [rest] at shorter
    exact Nat.lt_irrefl _ shorter

theorem before (read : item.ReadFrom grammar start stop) : start.place.before stop.place = true := by
  obtain ⟨passed, rest, nonempty⟩ := read.exists_passed
  apply read.reaches.before
  rw [rest, List.length_append]
  have taken := List.length_pos_iff.mpr nonempty
  omega

end Item.ReadFrom

namespace ReadInOrder

variable {grammar : Grammar} {first middle last : Cursor} {items others : List Item}

theorem reaches (inOrder : ReadInOrder grammar first items last) : first.Reaches last := by
  induction items generalizing first with
  | nil => exact inOrder
  | cons item items ih =>
    obtain ⟨start, stop, toStart, read, later⟩ := inOrder
    exact toStart.trans (read.reaches.trans (ih later))

theorem since (onward : first.Reaches middle) (inOrder : ReadInOrder grammar middle items last) :
    ReadInOrder grammar first items last := by
  cases items with
  | nil => exact onward.trans inOrder
  | cons item items =>
    obtain ⟨start, stop, toStart, rest⟩ := inOrder
    exact ⟨start, stop, onward.trans toStart, rest⟩

theorem append (here : ReadInOrder grammar first items middle)
    (there : ReadInOrder grammar middle others last) :
    ReadInOrder grammar first (items ++ others) last := by
  induction items generalizing first with
  | nil => exact since here there
  | cons item items ih =>
    obtain ⟨start, stop, toStart, read, later⟩ := here
    exact ⟨start, stop, toStart, read, ih later⟩

theorem toward (inOrder : ReadInOrder grammar first items middle) (onward : middle.Reaches last) :
    ReadInOrder grammar first items last := by
  rw [← List.append_nil items]
  exact inOrder.append onward

theorem left (inOrder : ReadInOrder grammar first (items ++ others) last) :
    ReadInOrder grammar first items last := by
  induction items generalizing first with
  | nil => exact inOrder.reaches
  | cons item items ih =>
    obtain ⟨start, stop, toStart, read, later⟩ := inOrder
    exact ⟨start, stop, toStart, read, ih later⟩

theorem exists_readFrom (inOrder : ReadInOrder grammar first items last) {item : Item}
    (member : item ∈ items) : ∃ start stop, first.Reaches start ∧ item.ReadFrom grammar start stop := by
  induction items generalizing first with
  | nil => exact absurd member List.not_mem_nil
  | cons next items ih =>
    obtain ⟨start, stop, toStart, read, later⟩ := inOrder
    rcases List.mem_cons.mp member with rfl | member
    · exact ⟨start, stop, toStart, read⟩
    · obtain ⟨further, final, toFurther, readItem⟩ := ih later member
      exact ⟨further, final, toStart.trans (read.reaches.trans toFurther), readItem⟩

/-- Each span ends before the next one starts. -/
theorem pairwise_precedes (inOrder : ReadInOrder grammar first items last) :
    (items.map Item.span).Pairwise Span.Precedes := by
  induction items generalizing first with
  | nil => exact .nil
  | cons item items ih =>
    obtain ⟨start, stop, -, read, later⟩ := inOrder
    apply List.Pairwise.cons
    · intro span member
      obtain ⟨other, inItems, rfl⟩ := List.mem_map.mp member
      obtain ⟨otherStart, otherStop, toOther, readOther⟩ := later.exists_readFrom inItems
      rw [read.span, readOther.span]
      constructor
      · exact Position.before_of_before_of_not_before read.before toOther.not_before
      · exact toOther.not_before
    · exact ih later

end ReadInOrder

namespace Reader

variable {grammar : Grammar}

/-!
## Documents
-/

/-- Behind the pending comments the items that are found follow in order. -/
def FollowsInOrder (grammar : Grammar) (pending : Pending) (start : Cursor) (items : List Item)
    (last : Cursor) : Prop :=
  ∀ first, ReadInOrder grammar first (commentItems pending.comments) start →
    ReadInOrder grammar first items last

theorem FollowsInOrder.of_comment {pending : Pending} {start last : Cursor} {items : List Item}
    {comment : PendingComment} (read : comment.item.ReadFrom grammar start start.atLineEnd)
    (follows : FollowsInOrder grammar (pending.add comment) start.atLineEnd items last) :
    FollowsInOrder grammar pending start items last := by
  intro first earlier
  apply follows
  have one : ReadInOrder grammar start [comment.item] start.atLineEnd :=
    ⟨start, _, .refl start, read, .refl _⟩
  rw [commentItems, Pending.add, List.reverse_cons, List.map_append]
  exact earlier.append one

theorem FollowsInOrder.of_declaration {pending : Pending} {start stop last : Cursor}
    {items : List Item} {item : Item} (line : Nat) (read : item.ReadFrom grammar start stop)
    (follows : FollowsInOrder grammar ⟨[], stop.place.line⟩ stop items last) :
    FollowsInOrder grammar pending start
      (commentItems (splitDescription line pending.comments).2 ++ [item] ++ items) last := by
  intro first earlier
  have parts := splitDescription_append line pending.comments
  rw [commentItems, ← parts, List.reverse_append, List.map_append] at earlier
  have one : ReadInOrder grammar start [item] stop := ⟨start, stop, .refl start, read, .refl stop⟩
  exact (earlier.left.append one).append (follows stop (.refl stop))

theorem FollowsInOrder.of_landed {pending : Pending} {start last : Cursor} {items : List Item}
    (follows : FollowsInOrder grammar pending start.landed items last) :
    FollowsInOrder grammar pending start items last := by
  intro first earlier
  exact follows first (earlier.toward (reads_skipBlanks start).reaches)

theorem documentStep_followsInOrder {grammar : Grammar} {pending : Pending} {start after : Cursor}
    {result : Round Pending Item} {asked : List Question}
    (step : DocumentStep grammar pending start.landed result after asked) :
    result.Leads (FollowsInOrder grammar) pending start after := by
  cases step with
  | ended =>
    apply FollowsInOrder.of_landed
    exact fun first earlier => earlier
  | @comment slashed body comment _ taken facts _ span =>
    have read : comment.item.ReadFrom grammar start.landed start.landed.atLineEnd := by
      rw [PendingComment.item, facts.text, span]
      exact .comment taken
    intro items last follows
    exact (follows.of_comment read).of_landed
  | declaration noComment starts ran =>
    intro items last follows
    exact (follows.of_declaration _ (.declaration _ noComment starts ⟨_, ran⟩)).of_landed

theorem readInOrder_document (grammar : Grammar) (start : Cursor) :
    (document grammar).Ensures start fun items last _ => ReadInOrder grammar start items last := by
  intro items last asked ran
  have follows := ensures_document_leads (fun _ _ _ _ _ => documentStep_followsInOrder) start _ _ _ ran
  exact follows start (.refl start)

/-!
## One item alone
-/

/-- Where a text ends only the comments that are pending are left. -/
theorem reads_document_end (grammar : Grammar) (pending : Pending) {start : Cursor} (ended : start.rest = []) :
    ∃ last, (rounds (documentRound grammar) (advances_documentRound grammar) pending).Reads start
      (commentItems pending.comments) last := by
  have nothing : start.landed.rest.isEmpty = true := by simp [Cursor.landed, Cursor.pass, ended]
  refine ⟨start.landed, reads_rounds_stop ⟨[], ?_⟩⟩
  rw [documentRound, run_andThen (run_skipBlanks_landed start), run_andThen (run_look _ _), nothing]
  rfl

theorem stops_isBlank_of_startsDeclaration {cs : List Char} (starts : startsDeclaration cs = true) :
    Stops isBlank cs := by
  rintro c others rfl
  have first : (decide (c = '@') || isIdentifierChar c) = true := starts
  rcases Bool.or_eq_true_iff.mp first with tag | name
  · rw [of_decide_eq_true tag]
    decide
  · exact not_isBlank_of_isIdentifierChar name

theorem reads_documentRound_declaration (pending : Pending) {start stop : Cursor} {entity : Entity}
    (noComment : startsComment start.rest = false) (starts : startsDeclaration start.rest = true)
    (read : (declaration grammar).Reads start entity stop) :
    (documentRound grammar pending).Reads start
      (.next (commentItems (splitDescription start.place.line pending.comments).2
          ++ [⟨entity.describe (descriptionOf (splitDescription start.place.line pending.comments).1),
            ⟨start.place, stop.place⟩⟩])
        ⟨[], stop.place.line⟩) stop := by
  have landed : start.landed = start := landed_of_stops (stops_isBlank_of_startsDeclaration starts)
  have goesOn : start.rest.isEmpty = false := List.isEmpty_eq_false_iff.mpr (ne_nil_of_startsDeclaration starts)
  have described : (describedDeclaration grammar pending).Reads start _ stop :=
    reads_bind_iff.mpr ⟨_, start, ⟨[], run_here start⟩, reads_bind_iff.mpr ⟨entity, stop, read,
      reads_bind_iff.mpr ⟨_, stop, ⟨[], run_here stop⟩, reads_pure_iff.mpr ⟨rfl, rfl⟩⟩⟩⟩
  obtain ⟨asked, ran⟩ := described
  refine ⟨asked, ?_⟩
  rw [documentRound, run_andThen (run_skipBlanks_landed start), landed, run_andThen (run_look _ _),
    goesOn]
  simp only [Bool.false_eq_true, if_false]
  rw [run_andThen (run_comment?_none _ noComment)]
  dsimp only
  rw [run_andThen (run_look _ _), starts]
  exact ran

theorem exists_reads_comment_alone {first : Cursor} {slashed : Bool} {body : List Char}
    (rest : first.rest = commentMark slashed ++ body) (oneLine : '\n' ∉ body) :
    ∃ items last, (document grammar).Reads first items last
      ∧ items.map Item.entity = [.comment (rereadLine body)] := by
  have stops : Stops isBlank first.rest := by
    rw [rest]
    cases slashed with
    | true => exact stops_cons (by decide) _
    | false => exact stops_cons (by decide) _
  have landed : first.landed.rest = commentMark slashed ++ (body ++ []) := by
    rw [landed_of_stops stops, rest, List.append_nil]
  have yields : (documentRound grammar ⟨[], 0⟩).Yields first True _ :=
    takesComments_documentRound grammar landed oneLine (stops_nil _)
  obtain ⟨_, stop, read, ⟨comment, rfl, facts⟩, ended, -⟩ := yields.exists_reads
  obtain ⟨last, readEnd⟩ := reads_document_end grammar (Pending.add ⟨[], 0⟩ comment) ended
  refine ⟨_, last, reads_rounds_next read readEnd, ?_⟩
  exact congrArg (fun text => [Entity.comment text]) facts.text

/-- What an item was read from is a document of its own, which holds the item without its description. -/
theorem exists_reads_alone {lines : Nat} {start stop first : Cursor} {item : Item}
    (read : item.ReadFrom grammar start stop) (rest : start.rest = first.rest ++ stop.rest)
    (line : start.place.line = first.place.line + lines) :
    ∃ items last, (document grammar).Reads first items last
      ∧ items.map Item.entity = [item.entity.describe none] := by
  cases read with
  | @comment slashed body taken =>
    have whole : first.rest = start.rest.takeWhile (· ≠ '\n') := by
      have same := List.takeWhile_append_dropWhile (p := (· ≠ '\n')) (l := start.rest)
      exact (List.append_cancel_right (same.trans rest)).symm
    have oneLine := not_lineFeed_mem_takeWhile start.rest
    rw [taken] at whole oneLine
    apply exists_reads_comment_alone whole
    exact fun member => oneLine (List.mem_append_right _ member)
  | @declaration entity _ description noComment starts read =>
    have copies : Cursor.Copies lines start stop first (first.pass first.rest []) :=
      ⟨⟨first.rest, rest, (List.append_nil _).symm, rfl⟩, List.nil_prefix, line⟩
    obtain ⟨_, rfl, again⟩ := isReplayed_declaration grammar lines _ _ _ _ _ read copies
    have shorter : stop.rest.length < start.rest.length := by
      obtain ⟨asked, ran⟩ := read
      exact advances_declaration grammar _ _ _ _ ran trivial
    have startsAgain : startsDeclaration first.rest = true := by
      rw [startsDeclaration, copies.head? shorter]
      exact starts
    have noCommentAgain : startsComment first.rest = false := by
      rw [rest] at noComment
      exact startsComment_cut noComment (List.prefix_append _ _)
    have round := reads_documentRound_declaration ⟨[], 0⟩ noCommentAgain startsAgain again
    have ended : (first.pass first.rest []).rest = [] := rfl
    obtain ⟨last, readEnd⟩ := reads_document_end grammar ⟨[], _⟩ ended
    refine ⟨_, last, reads_rounds_next round readEnd, ?_⟩
    rw [Entity.describe_describe]
    rfl

end Reader

end ApiDef
