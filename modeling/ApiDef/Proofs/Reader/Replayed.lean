import ApiDef.Proofs.Reader.Replay
import Mathlib.Data.List.Forall2
set_option autoImplicit false

/-!
# Words, types and properties are read again alike

The readers of the parts of a declaration come to the same in a copy of what they took. A comment counts
only by its text and by how its line lies to the lines around it, and a tag counts without its place.
-/

namespace ApiDef

open Text

namespace Reader

variable {α σ : Type} {lines : Nat}

/-!
## Words and gaps
-/

theorem isReplayed_of_cut {reader : Reader α}
    (again : ∀ start value stop passed tail first, reader.Reads start value stop →
      start.rest = passed ++ stop.rest → first.rest = passed ++ tail → tail <+: stop.rest →
      reader.Reads first value (first.pass passed tail)) : reader.IsReplayed := by
  intro lines start value stop first last read copies
  obtain ⟨⟨passed, rest, copy, behind⟩, cut, -⟩ := copies
  rw [behind]
  exact ⟨value, rfl, again start value stop passed _ first read rest copy cut⟩

theorem isReplayed_takeWhile (p : Char → Bool) : (takeWhile p).IsReplayed := by
  apply isReplayed_of_cut
  rintro start _ _ passed tail first ⟨asked, ran⟩ rest copy cut
  obtain ⟨rfl, rfl, -⟩ := Outcome.done.inj ran
  obtain ⟨taken, dropped, same⟩ := takeWhile_cut rest rfl cut
  refine ⟨[], ?_⟩
  simp only [takeWhile, copy, taken, dropped, ← same]

theorem isReplayed_eatText (text : List Char) : (eatText text).IsReplayed := by
  apply isReplayed_of_cut
  rintro start found stop passed tail first ⟨asked, ran⟩ rest copy cut
  simp only [eatText] at ran
  split at ran
  next starts =>
    obtain ⟨rfl, rfl, -⟩ := Outcome.done.inj ran
    obtain ⟨others, whole⟩ := List.isPrefixOf_iff_prefix.mp starts
    have left : start.rest.drop text.length = others := by rw [← whole, List.drop_left]
    have same : passed ++ others = text ++ others := by rw [whole, rest, Cursor.pass, left]
    obtain rfl : passed = text := List.append_cancel_right same
    exact ⟨[], run_eatText copy⟩
  next missing =>
    obtain ⟨rfl, rfl, -⟩ := Outcome.done.inj ran
    obtain rfl : passed = [] := by simpa using rest
    have other : ¬text.isPrefixOf first.rest = true := by
      intro starts
      rw [copy] at starts
      exact missing (List.isPrefixOf_iff_prefix.mpr ((List.isPrefixOf_iff_prefix.mp starts).trans cut))
    refine ⟨[], ?_⟩
    rw [eatText]
    simp only [if_neg other, Cursor.pass, Position.advanceOver_nil]
    rw [← show first.rest = tail from copy]

theorem isReplayed_eat (c : Char) : (eat c).IsReplayed := isReplayed_eatText [c]

theorem isReplayed_require (c : Char) : (require c).IsReplayed := by
  apply (isReplayed_eat c).bind
  intro found
  cases found with
  | true => exact isReplayed_pure ()
  | false => exact isReplayed_unexpected _

theorem isReplayed_skipBlanks : skipBlanks.IsReplayed :=
  (isReplayed_takeWhile isBlank).bind fun _ => isReplayed_pure ()

theorem isReplayed_skipComment : skipComment.IsReplayed := by
  apply isReplayed_of_cut
  rintro start found stop passed tail first ⟨asked, ran⟩ rest copy cut
  simp only [skipComment] at ran
  split at ran
  next starts =>
    obtain ⟨rfl, rfl, -⟩ := Outcome.done.inj ran
    obtain ⟨taken, dropped, same⟩ := takeWhile_cut rest rfl cut
    have again : startsComment first.rest = true := by
      obtain ⟨slashed, others, mark⟩ := exists_commentMark starts
      rw [copy, same, mark, List.takeWhile_append_of_pos (not_lineFeed_of_mem_commentMark slashed),
        List.append_assoc]
      cases slashed <;> rfl
    refine ⟨[], ?_⟩
    simp only [skipComment, if_pos again]
    rw [copy, taken, dropped]
  next noComment =>
    obtain ⟨rfl, rfl, -⟩ := Outcome.done.inj ran
    obtain rfl : passed = [] := by simpa using rest
    have still : first.pass [] tail = first := by
      rw [Cursor.pass, ← show first.rest = tail from copy]
      rfl
    have none : startsComment first.rest = false := by
      rw [copy]
      exact startsComment_cut (Bool.not_eq_true _ ▸ noComment) cut
    refine ⟨[], ?_⟩
    simp only [skipComment, none, still, Bool.false_eq_true, if_false]

theorem isReplayed_skipTrivia : skipTrivia.IsReplayed := by
  have round : ∀ state, (triviaRound state).IsReplayed := by
    intro state
    apply isReplayed_skipBlanks.bind
    intro _
    apply isReplayed_skipComment.bind
    intro found
    cases found with
    | true => exact isReplayed_pure _
    | false => exact isReplayed_pure _
  exact (isReplayed_rounds round ()).bind fun _ => isReplayed_pure ()

theorem reads_identifier?_none_iff {start stop : Cursor} :
    identifier?.Reads start none stop
      ↔ (start.rest.head?.map isIdentifierStart).getD false = false ∧ stop = start := by
  constructor
  · rintro ⟨asked, ran⟩
    simp only [identifier?] at ran
    split at ran
    next => cases ran
    next other => exact ⟨Bool.not_eq_true _ ▸ other, (Outcome.done.inj ran).2.1.symm⟩
  · rintro ⟨other, rfl⟩
    refine ⟨[], ?_⟩
    simp [identifier?, other]

theorem startsName_cut {rest tail : List Char}
    (other : (rest.head?.map isIdentifierStart).getD false = false) (cut : tail <+: rest) :
    (tail.head?.map isIdentifierStart).getD false = false := by
  cases tail with
  | nil => rfl
  | cons c others =>
    obtain ⟨more, rfl⟩ := cut
    exact other

theorem reads_identifier?_some {start stop : Cursor} {name : String}
    (read : identifier?.Reads start (some name) stop) :
    (start.rest.head?.map isIdentifierStart).getD false = true
      ∧ name.toList = start.rest.takeWhile isIdentifierChar
      ∧ stop.rest = start.rest.dropWhile isIdentifierChar := by
  obtain ⟨asked, ran⟩ := read
  simp only [identifier?] at ran
  split at ran
  next starts =>
    obtain ⟨same, rfl, -⟩ := Outcome.done.inj ran
    obtain rfl := Option.some.inj same
    exact ⟨starts, String.toList_ofList, rfl⟩
  next => cases ran

theorem isReplayed_identifier? : identifier?.IsReplayed := by
  apply isReplayed_of_cut
  intro start found stop passed tail first read rest copy cut
  cases found with
  | none =>
    obtain ⟨other, rfl⟩ := reads_identifier?_none_iff.mp read
    obtain rfl : passed = [] := by simpa using rest
    rw [reads_identifier?_none_iff, copy]
    refine ⟨startsName_cut other cut, ?_⟩
    rw [Cursor.pass, ← show first.rest = tail from copy]
    rfl
  | some name =>
    obtain ⟨starts, word, left⟩ := reads_identifier?_some read
    obtain ⟨-, -, same⟩ := takeWhile_cut rest left cut
    obtain rfl : passed = name.toList := same.trans word.symm
    have valid : isIdentifier name = true := by
      have longest := isIdentifier_takeWhile starts
      rwa [← word, String.ofList_toList] at longest
    have stops : Stops isIdentifierChar stop.rest := by
      rw [left]
      exact stops_dropWhile isIdentifierChar start.rest
    exact ⟨[], run_identifier? copy valid (stops.cut cut)⟩

theorem isReplayed_identifier (also : List Expected) : (identifier also).IsReplayed := by
  apply isReplayed_identifier?.bind
  intro found
  cases found with
  | some name => exact isReplayed_pure name
  | none => exact isReplayed_unexpected _

theorem isReplayed_literal : literal.IsReplayed := by
  apply isReplayed_of_cut
  rintro start found stop passed tail first ⟨asked, ran⟩ rest copy cut
  have whole := Literal.whole_scan start.rest
  simp only [literal] at ran
  split at ran
  next value others after scanned =>
    obtain ⟨rfl, rfl, -⟩ := Outcome.done.inj ran
    rw [scanned, Literal.Scan.whole_found, rest] at whole
    obtain rfl : others = passed := List.append_cancel_right whole
    have again := Literal.scan_cut scanned cut
    rw [← copy] at again
    exact ⟨[], run_literal again⟩
  next => cases ran

/-- The items of a list are related one by one. -/
theorem replays_separated {same : α → α → Prop} {gap : Reader Unit} {item : Advancing α} {close : Char}
    (gapReplayed : gap.IsReplayed) (itemReplays : Replays lines same item.toReader item.toReader) :
    Replays lines (List.Forall₂ same) (separated gap item close) (separated gap item close) := by
  apply replays_rounds fun _ _ => True
  · exact fun _ _ _ _ here there => List.rel_append here there
  · intro _ _ _
    apply gapReplayed.andThen
    intro _
    apply itemReplays.bind
    intro value found holds
    have single : List.Forall₂ same [value] [found] := .cons holds .nil
    apply gapReplayed.andThen
    intro _
    apply (isReplayed_eat close).andThen
    intro closed
    cases closed with
    | true => exact replays_pure single
    | false =>
      apply (isReplayed_eat ',').andThen
      intro comma
      cases comma with
      | true => exact replays_pure ⟨single, trivial⟩
      | false => exact replays_unexpected
  · trivial

theorem isReplayed_separated {gap : Reader Unit} {item : Advancing α} {close : Char}
    (gapReplayed : gap.IsReplayed) (itemReplayed : item.toReader.IsReplayed) :
    (separated gap item close).IsReplayed := by
  intro lines
  have each : Replays lines (List.Forall₂ Eq) (separated gap item close) (separated gap item close) :=
    replays_separated gapReplayed (itemReplayed lines)
  rwa [List.forall₂_eq_eq_eq] at each

/-- A value with its span is read again with another span. -/
theorem replays_spanned {reader : Reader α} (replayed : reader.IsReplayed) :
    Replays lines (fun found again => found.1 = again.1) (spanned reader) (spanned reader) := by
  apply replays_here.bind
  intro _ _ _
  apply replayed.andThen
  intro value
  apply replays_here.bind
  intro _ _ _
  exact replays_pure rfl

/-!
## Types and tags
-/

theorem isReplayed_listMark : listMark.IsReplayed := by
  apply (isReplayed_eat '[').bind
  intro opened
  cases opened with
  | true => exact (isReplayed_require ']').bind fun _ => isReplayed_pure true
  | false => exact isReplayed_pure false

theorem isReplayed_typeArguments {inner : Unit → Advancing TypeRef}
    (innerReplayed : (inner ()).toReader.IsReplayed) : (typeArguments inner).IsReplayed := by
  apply (isReplayed_eat '<').bind
  intro opened
  cases opened with
  | true => exact isReplayed_separated isReplayed_skipBlanks innerReplayed
  | false => exact isReplayed_pure []

theorem isReplayed_typeRef (limit levels : Nat) : (typeRef limit levels).toReader.IsReplayed := by
  induction levels with
  | zero => exact isReplayed_fail _
  | succ levels ih =>
    change (typeRefLevel fun _ => typeRef limit levels).IsReplayed
    rw [typeRefLevel_eq]
    apply (isReplayed_identifier []).bind
    intro name
    apply (isReplayed_typeArguments ih).bind
    intro generics
    exact isReplayed_listMark.bind fun _ => isReplayed_pure _

/-- An equals sign is missed exactly where none stands behind the blanks. -/
theorem reads_assigned_none_iff {value : α} (start : Cursor) :
    (∃ stop, (assigned value).Reads start none stop)
      ↔ (start.rest.dropWhile isBlank).head? ≠ some '=' := by
  constructor
  · rintro ⟨stop, asked, ran⟩ equalsSign
    obtain ⟨others, rest⟩ := List.head?_eq_some_iff.mp equalsSign
    rw [assigned, run_andThen (run_skipBlanks_landed start), run_andThen (run_eat rest)] at ran
    cases ran
  · intro missing
    refine ⟨start.landed, [], ?_⟩
    rw [assigned, run_andThen (run_skipBlanks_landed start), run_andThen (run_eat_other missing)]
    rfl

theorem isReplayed_assigned (value : α) : (assigned value).IsReplayed := by
  apply isReplayed_skipBlanks.bind
  intro _
  apply (isReplayed_eat '=').bind
  intro assigned
  cases assigned with
  | true => exact isReplayed_pure _
  | false => exact isReplayed_pure _

theorem isReplayed_optionKey? : optionKey?.IsReplayed := by
  apply IsReplayed.attempt
  · apply isReplayed_identifier?.bind
    intro key
    cases key with
    | none => exact isReplayed_pure none
    | some key => exact isReplayed_assigned key
  · intro start stop first read cut
    -- What is cut off may have hidden the equals sign but cannot have shown one.
    obtain ⟨key, middle, readKey, readMark⟩ := reads_bind_iff.mp read
    cases copied : (first.rest.head?.map isIdentifierStart).getD false with
    | false =>
      have missed := reads_identifier?_none_iff.mpr ⟨copied, rfl⟩
      exact ⟨first, reads_bind_iff.mpr ⟨none, first, missed, reads_pure_iff.mpr ⟨rfl, rfl⟩⟩⟩
    | true =>
      cases key with
      | none =>
        obtain ⟨other, -⟩ := reads_identifier?_none_iff.mp readKey
        rw [startsName_cut other cut] at copied
        cases copied
      | some key =>
        obtain ⟨-, -, left⟩ := reads_identifier?_some readKey
        have missing := (reads_assigned_none_iff _).mp ⟨stop, readMark⟩
        rw [left] at missing
        have copyMissing := head?_cut missing (dropWhile_cut isBlank (dropWhile_cut isIdentifierChar cut))
        have readWord : identifier?.Reads first (some (String.ofList (first.rest.takeWhile isIdentifierChar)))
            (first.pass (first.rest.takeWhile isIdentifierChar)
              (first.rest.dropWhile isIdentifierChar)) := by
          refine ⟨[], ?_⟩
          simp only [identifier?, if_pos copied]
        obtain ⟨last, missed⟩ := (reads_assigned_none_iff (first.pass _ _)).mpr copyMissing
        exact ⟨last, reads_bind_iff.mpr ⟨_, _, readWord, missed⟩⟩

theorem isReplayed_tagItem : tagItem.IsReplayed := by
  apply isReplayed_optionKey?.bind
  intro key
  cases key with
  | none => exact isReplayed_literal.bind fun _ => isReplayed_pure _
  | some key =>
    apply isReplayed_skipBlanks.bind
    intro _
    exact isReplayed_literal.bind fun _ => isReplayed_pure _

theorem isReplayed_tagItems : tagItems.IsReplayed := by
  apply (isReplayed_eat '(').bind
  intro opened
  cases opened with
  | false => exact isReplayed_pure []
  | true =>
    apply isReplayed_skipBlanks.bind
    intro _
    apply (isReplayed_eat ')').bind
    intro closed
    cases closed with
    | true => exact isReplayed_pure []
    | false => exact isReplayed_separated isReplayed_skipBlanks isReplayed_tagItem

theorem isReplayed_tagBody : tagBody.IsReplayed := by
  apply (isReplayed_identifier []).bind
  intro name
  exact isReplayed_tagItems.bind fun _ => isReplayed_pure _

/-- The same tags, at whatever places. -/
def SameTags (found again : List (Tag × Span)) : Prop :=
  found.map Prod.fst = again.map Prod.fst

theorem replays_tags : Replays lines SameTags tags tags := by
  apply replays_rounds fun _ _ => True
  · intro found others later further here there
    rw [SameTags, List.map_append, List.map_append, here, there]
  · intro _ _ _
    apply isReplayed_skipTrivia.andThen
    intro _
    apply replays_here.bind
    intro _ _ _
    apply (isReplayed_eat '@').andThen
    intro isTag
    cases isTag with
    | false => exact replays_pure rfl
    | true =>
      apply isReplayed_tagBody.andThen
      intro tag
      apply replays_here.bind
      intro _ _ _
      exact replays_pure ⟨rfl, trivial⟩
  · trivial

/-!
## Comments
-/

/-- A comment and its copy further up. -/
structure PendingComment.Copies (lines : Nat) (comment copy : PendingComment) : Prop where
  text : comment.text = copy.text
  slashed : comment.slashed = copy.slashed
  alone : comment.alone = copy.alone
  line : ShiftedLine lines comment.span.start copy.span.start

structure Pending.Copies (lines : Nat) (pending copy : Pending) : Prop where
  comments : List.Forall₂ (PendingComment.Copies lines) pending.comments copy.comments
  lastCodeLine : pending.lastCodeLine = copy.lastCodeLine + lines

theorem replays_commentBehindMark {lastCodeLine copyLine : Nat}
    (shifted : lastCodeLine = copyLine + lines) {start copyStart : Position}
    (startShifted : ShiftedLine lines start copyStart) (slashed : Bool) :
    Replays lines (Option.Rel (PendingComment.Copies lines))
      (commentBehindMark lastCodeLine start slashed)
      (commentBehindMark copyLine copyStart slashed) := by
  apply (isReplayed_takeWhile _).andThen
  intro text
  apply replays_here.bind
  intro _ _ _
  have alone : decide (lastCodeLine < start.line) = decide (copyLine < copyStart.line) := by
    rw [startShifted, shifted]
    exact decide_eq_decide.mpr Nat.add_lt_add_iff_right
  exact replays_pure (.some ⟨rfl, rfl, alone, startShifted⟩)

theorem replays_comment? {lastCodeLine copyLine : Nat} (shifted : lastCodeLine = copyLine + lines) :
    Replays lines (Option.Rel (PendingComment.Copies lines)) (comment? lastCodeLine)
      (comment? copyLine) := by
  rw [comment?_eq, comment?_eq]
  apply replays_here.bind
  intro start copyStart startShifted
  apply (isReplayed_eatText _).andThen
  intro slashed
  cases slashed with
  | true => exact replays_commentBehindMark shifted startShifted true
  | false =>
    apply (isReplayed_eat '#').andThen
    intro hashed
    cases hashed with
    | true => exact replays_commentBehindMark shifted startShifted false
    | false => exact replays_pure .none

/-- The same comments describe what stands behind them, line for line. -/
theorem texts_splitDescription {comments copies : List PendingComment}
    (copied : List.Forall₂ (PendingComment.Copies lines) comments copies) {line copyLine : Nat}
    (shifted : line = copyLine + lines) :
    (splitDescription line comments).1.map PendingComment.text
      = (splitDescription copyLine copies).1.map PendingComment.text := by
  induction copied generalizing line copyLine with
  | nil => rfl
  | @cons comment copy earlier others here _ ih =>
    have adjoins : comment.span.start.line + 1 = line ↔ copy.span.start.line + 1 = copyLine := by
      rw [here.line, shifted]
      omega
    simp only [splitDescription, here.slashed, here.alone, adjoins]
    split
    · rw [List.map_cons, List.map_cons, here.text, ih here.line]
    · rfl

theorem descriptionOf_eq_of_texts {describing others : List PendingComment}
    (same : describing.map PendingComment.text = others.map PendingComment.text) :
    descriptionOf describing = descriptionOf others := by
  have empty : describing.isEmpty = others.isEmpty := by
    rw [← List.isEmpty_map (f := PendingComment.text), same, List.isEmpty_map]
  rw [descriptionOf, descriptionOf, empty, List.map_reverse, List.map_reverse, same]

/-!
## Bodies
-/

theorem isReplayed_defaultValue? : defaultValue?.IsReplayed := by
  have assignment : (Reader.attempt (assigned ())).IsReplayed := by
    apply (isReplayed_assigned ()).attempt
    intro start stop first read cut
    have missing := (reads_assigned_none_iff _).mp ⟨stop, read⟩
    exact (reads_assigned_none_iff _).mpr (head?_cut missing (dropWhile_cut isBlank cut))
  apply assignment.bind
  intro assigned
  cases assigned with
  | none => exact isReplayed_pure none
  | some =>
    apply isReplayed_skipBlanks.bind
    intro _
    exact isReplayed_literal.bind fun _ => isReplayed_pure _

section

variable {types : Advancing TypeRef} {inner : Unit → Reader (List Property)}
  (typesReplayed : types.toReader.IsReplayed) (innerReplayed : (inner ()).IsReplayed)

include typesReplayed innerReplayed

theorem isReplayed_propertyShape : (propertyShape types inner).IsReplayed := by
  apply (isReplayed_eat '{').bind
  intro opened
  cases opened with
  | true => exact innerReplayed.bind fun _ => isReplayed_pure _
  | false =>
    apply (isReplayed_eat '[').bind
    intro listed
    cases listed with
    | true =>
      apply isReplayed_skipBlanks.bind
      intro _
      apply (isReplayed_require '{').bind
      intro _
      apply innerReplayed.bind
      intro properties
      apply isReplayed_skipBlanks.bind
      intro _
      exact (isReplayed_require ']').bind fun _ => isReplayed_pure _
    | false =>
      intro lines
      apply (replays_spanned typesReplayed).bind
      rintro ⟨type, place⟩ ⟨_, copyPlace⟩ rfl
      apply (replays_ask _ _).bind
      intro _ _ _
      exact replays_pure rfl

theorem isReplayed_property : (property types inner).IsReplayed := by
  intro lines
  apply replays_tags.bind
  intro tags copyTags sameTags
  apply (replays_ask _ _).bind
  intro _ _ _
  apply (isReplayed_identifier _).andThen
  intro name
  apply isReplayed_skipBlanks.andThen
  intro _
  apply (isReplayed_require ':').andThen
  intro _
  apply isReplayed_skipBlanks.andThen
  intro _
  apply (isReplayed_propertyShape typesReplayed innerReplayed).andThen
  intro shape
  apply isReplayed_defaultValue?.andThen
  intro defaultValue
  rw [show tags.map (·.1) = copyTags.map (·.1) from sameTags]
  exact replays_pure rfl

theorem replays_describedProperty {pending copy : Pending} (copies : pending.Copies lines copy) :
    Replays lines (Round.Matches Eq (Pending.Copies lines)) (describedProperty types inner pending)
      (describedProperty types inner copy) := by
  apply replays_here.bind
  intro start copyStart startShifted
  have description := descriptionOf_eq_of_texts (texts_splitDescription copies.comments startShifted)
  simp only [description]
  apply (isReplayed_property typesReplayed innerReplayed).andThen
  intro property
  apply replays_here.bind
  intro stop copyStop stopShifted
  apply isReplayed_skipBlanks.andThen
  intro _
  have separator : eatSeparator.IsReplayed := by
    apply (isReplayed_eat ',').bind
    intro comma
    cases comma with
    | true => exact isReplayed_pure true
    | false => exact isReplayed_eat ';'
  apply separator.andThen
  intro separated
  apply replays_here.bind
  intro after copyAfter afterShifted
  cases separated with
  | true => exact replays_pure ⟨rfl, .nil, afterShifted⟩
  | false => exact replays_pure ⟨rfl, .nil, stopShifted⟩

theorem replays_propertyRound {pending copy : Pending} (copies : pending.Copies lines copy) :
    Replays lines (Round.Matches Eq (Pending.Copies lines)) (propertyRound types inner pending)
      (propertyRound types inner copy) := by
  apply isReplayed_skipBlanks.andThen
  intro _
  apply (replays_comment? copies.lastCodeLine).bind
  intro found copyFound sameFound
  cases sameFound with
  | some copied => exact replays_pure ⟨rfl, .cons copied copies.comments, copies.lastCodeLine⟩
  | none =>
    apply (isReplayed_eat '}').andThen
    intro closed
    cases closed with
    | true => exact replays_pure rfl
    | false =>
      apply replays_lookHead_bind
      · intro cs others same
        rw [startsDeclaration, startsDeclaration, same]
      · intro starts
        cases starts with
        | false => exact advances_unexpected
        | true =>
          exact .andThen fun _ => (advances_property types inner).bind fun _ never => absurd trivial never
      · intro starts
        cases starts with
        | false => exact replays_unexpected
        | true => exact replays_describedProperty typesReplayed innerReplayed copies

end

theorem isReplayed_body (limit levels : Nat) : (body limit levels).IsReplayed := by
  induction levels with
  | zero => exact isReplayed_fail _
  | succ levels ih =>
    intro lines
    apply replays_here.bind
    intro start copyStart startShifted
    apply replays_rounds (Pending.Copies lines)
    · rintro found _ later _ rfl rfl
      rfl
    · intro pending copy copies
      exact replays_propertyRound (isReplayed_typeRef limit (levels + 1)) ih copies
    · exact ⟨.nil, startShifted⟩

end Reader

end ApiDef
