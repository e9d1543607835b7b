import ApiDef.Proofs.Reader.InParallel
import ApiDef.Proofs.Reader.Parts
import ApiDef.Proofs.Reader.Replayed
set_option autoImplicit false

/-!
# Words, types and tags in parallel

A word is found in both texts or in neither. Behind a gap the readers stand at the same place again,
however many carriage returns were in it, unless the first text ended there.
-/

namespace ApiDef

open Text

/-!
## Ends of texts
-/

/-- Nothing but blanks and words is left. -/
def Cursor.IsBare (cursor : Cursor) : Prop :=
  ∀ c ∈ cursor.rest, isBlank c = true ∨ isIdentifierChar c = true

theorem Cursor.isBare_of_end {cursor : Cursor} (ended : cursor.rest = []) : cursor.IsBare := by
  intro c member
  rw [ended] at member
  cases member

theorem Cursor.IsBare.of_reaches {first second : Cursor} (bare : first.IsBare)
    (reaches : first.Reaches second) : second.IsBare := by
  obtain ⟨passed, rest, -⟩ := reaches
  intro c member
  apply bare c
  rw [rest]
  exact List.mem_append_right passed member

/-- A carriage return belongs to the line that it ends. -/
theorem Text.Respelling.Aligned.atLineEnd {spelling : Respelling} {first second : Cursor}
    (aligned : spelling.Aligned first second) :
    spelling.Near first.atLineEnd second.atLineEnd := by
  have inLine := Reader.not_lineFeed_mem_takeWhile first.rest
  have whole := (List.takeWhile_append_dropWhile (p := (· ≠ '\n')) (l := first.rest)).symm
  rw [Cursor.atLineEnd, Cursor.atLineEnd, aligned.rest]
  rcases spelling.takeWhile_line_text first.rest with
    ⟨taken, dropped⟩ | ⟨returns, others, left, taken, dropped⟩
  · rw [taken, dropped]
    exact .aligned (aligned.pass_inLine whole inLine)
  · have before := aligned.pass_inLine whole inLine
    rw [taken, dropped]
    refine .behindReturn returns before ?_ ?_
    · rw [Cursor.pass, left, Respelling.text_lineFeed, if_pos returns]
      rfl
    · rw [Cursor.pass, Position.advanceOver_append]
      rfl

namespace Reader

variable {α β γ : Type} {spelling : Respelling}

/-- The second reader may be lost where nothing but blanks and words is left of the first text. -/
def bare (_ : α) (after : Cursor) : Prop :=
  after.IsBare

theorem ensures_bare (reader : Reader α) {start : Cursor} (isBare : start.IsBare) :
    reader.Ensures start fun value after _ => bare value after :=
  fun _ _ _ ran => isBare.of_reaches (reader.forward ran)

theorem ensures_atEnd (reader : Reader α) {start : Cursor} (ended : start.rest = []) :
    reader.Ensures start fun value after _ => atEnd value after := by
  intro value after asked ran
  obtain ⟨passed, rest, -⟩ := reader.forward ran
  rw [ended] at rest
  exact (List.append_eq_nil_iff.mp rest.symm).2

/-- It is enough that the first reader takes something. -/
theorem Advances.first {reader : Reader α} {next : α → Reader β} (advances : reader.Advances fun _ => True) :
    (reader >>= next).Advances fun _ => True :=
  advances.bind fun _ never => absurd trivial never

/-- A character is taken, or the next reader takes something. -/
theorem advances_eat_bind {c : Char} {next : Bool → Reader α}
    (other : (next false).Advances fun _ => True) : (eat c >>= next).Advances fun _ => True := by
  apply (advances_eat c).bind
  intro found notFound
  cases found with
  | true => exact absurd rfl notFound
  | false => exact other

theorem advances_require (c : Char) : (require c).Advances fun _ => True :=
  advances_eat_bind advances_unexpected

/-- The reader takes a character that is neither blank nor in a word. -/
def NeedsMark (reader : Reader α) : Prop :=
  ∀ start value stop, start.IsBare → ¬reader.Reads start value stop

/-- A character that is neither blank nor in a word. -/
def IsMark (c : Char) : Prop :=
  isBlank c = false ∧ isIdentifierChar c = false

instance (c : Char) : Decidable (IsMark c) :=
  inferInstanceAs (Decidable (_ ∧ _))

theorem IsMark.inLine {c : Char} (mark : IsMark c) : c ≠ '\n' ∧ c ≠ '\r' := by
  constructor
  · rintro rfl
    exact absurd mark (by decide)
  · rintro rfl
    exact absurd mark (by decide)

/-- A bare text holds no mark. -/
theorem IsMark.not_mem_of_isBare {c : Char} (mark : IsMark c) {cursor : Cursor} (isBare : cursor.IsBare) :
    c ∉ cursor.rest := by
  intro member
  rcases isBare c member with blank | inWord
  · rw [mark.1] at blank
    cases blank
  · rw [mark.2] at inWord
    cases inWord

theorem NeedsMark.bind {first : Reader α} {next : α → Reader β} (needs : first.NeedsMark) :
    (first >>= next).NeedsMark := by
  intro start result stop isBare read
  obtain ⟨value, middle, readFirst, -⟩ := reads_bind_iff.mp read
  exact needs start value middle isBare readFirst

theorem NeedsMark.andThen {first : Reader α} {next : α → Reader β}
    (needs : ∀ value, (next value).NeedsMark) : (first >>= next).NeedsMark := by
  intro start result stop isBare read
  obtain ⟨value, middle, readFirst, readNext⟩ := reads_bind_iff.mp read
  exact needs value middle result stop (isBare.of_reaches readFirst.reaches) readNext

theorem needsMark_unexpected (expected : List Expected) : (unexpected expected : Reader α).NeedsMark :=
  fun _ _ _ _ => not_reads_of_failed rfl

theorem needsMark_eat_bind {c : Char} (mark : IsMark c) {next : Bool → Reader α}
    (other : (next false).NeedsMark) : (eat c >>= next).NeedsMark := by
  intro start result stop isBare read
  obtain ⟨found, middle, ⟨asked, ran⟩, readNext⟩ := reads_bind_iff.mp read
  simp only [eat, eatText] at ran
  split at ran
  next starts =>
    obtain ⟨others, whole⟩ := List.isPrefixOf_iff_prefix.mp starts
    refine absurd ?_ (mark.not_mem_of_isBare isBare)
    rw [← whole]
    exact List.mem_cons_self
  next =>
    obtain ⟨rfl, rfl, -⟩ := Outcome.done.inj ran
    exact other start result stop isBare readNext

theorem needsMark_require {c : Char} (mark : IsMark c) : (require c).NeedsMark :=
  needsMark_eat_bind mark (needsMark_unexpected _)

theorem NeedsMark.ensures {reader : Reader α} (needs : reader.NeedsMark) {start : Cursor}
    (isBare : start.IsBare) {post : α → Cursor → List Question → Prop} : reader.Ensures start post :=
  fun value stop asked ran => absurd ⟨asked, ran⟩ (needs start value stop isBare)

/-!
## Gaps
-/

theorem inParallel_skipBlanks :
    InParallel spelling spelling.Near atEnd (Both spelling Eq) skipBlanks skipBlanks := by
  intro start other near
  obtain ⟨third, aligned, landed⟩ := near.exists_aligned
  rw [run_skipBlanks_landed, run_skipBlanks_landed, landed]
  by_cases known : spelling.tail = [] ∨ start.rest.dropWhile isBlank ≠ []
  · obtain ⟨taken, dropped⟩ := spelling.takeWhile_isBlank_text known
    have behind := aligned.pass (List.takeWhile_append_dropWhile (p := isBlank) (l := start.rest)).symm
    rw [← taken, ← dropped, ← aligned.rest] at behind
    exact .done ⟨rfl, behind⟩
  · rw [not_or, not_not] at known
    exact .lost known.1 known.2

theorem inParallel_skipComment :
    InParallel spelling spelling.Aligned never (fun found again after behind => found = again
      ∧ if found then spelling.Near after behind else spelling.Aligned after behind)
      skipComment skipComment := by
  intro start other aligned
  have same : startsComment other.rest = startsComment start.rest := by
    rw [aligned.rest, spelling.startsComment_text]
  cases starts : startsComment start.rest with
  | true =>
    simp only [skipComment, same, starts, if_true]
    exact .done ⟨rfl, aligned.atLineEnd⟩
  | false =>
    simp only [skipComment, same, starts, Bool.false_eq_true, if_false]
    exact .done ⟨rfl, aligned⟩

theorem inParallel_skipTrivia :
    InParallel spelling spelling.Near atEnd (Both spelling Eq) skipTrivia skipTrivia := by
  have gaps : InParallel spelling spelling.Near (fun _ after => after.rest = []) (Both spelling Eq)
      (rounds triviaRound advances_triviaRound ()) (rounds triviaRound advances_triviaRound ()) := by
    apply inParallel_rounds (fun _ _ => True) atEnd
    · rintro found _ later _ rfl rfl
      rfl
    · exact fun _ _ ended => ended
    · exact fun _ _ after ended => ensures_atEnd _ ended
    · intro _ _ _
      apply inParallel_skipBlanks.bindBoth
      · exact fun _ after ended => ensures_atEnd _ ended
      · intro _ _ _
        apply inParallel_skipComment.bind
        · exact fun _ _ lost => lost.elim
        · rintro found _ start other ⟨rfl, behind⟩
          cases found with
          | true => exact .done ⟨⟨rfl, trivial⟩, behind⟩
          | false => exact .done ⟨rfl, behind⟩
    · trivial
  apply gaps.bindBoth
  · exact fun _ after ended => ensures_atEnd _ ended
  · intro _ _ _
    exact alike_pure ()

/-- A reader that a gap has lost takes no mark. -/
theorem InParallel.thenRequire {pre : Cursor → Cursor → Prop} {gap : Reader Unit} {c : Char} {next : Reader α}
    {nextAgain : Reader β} {losesNext : α → Cursor → Prop} {post : α → β → Cursor → Cursor → Prop}
    (gapParallel : InParallel spelling pre atEnd (Both spelling Eq) gap gap)
    (inLine : c ≠ '\n' ∧ c ≠ '\r')
    (nextParallel : InParallel spelling spelling.Aligned losesNext post next nextAgain) :
    InParallel spelling pre losesNext post
      (do
        gap
        require c
        next)
      (do
        gap
        require c
        nextAgain) := by
  apply gapParallel.bindTaking
  · exact fun _ => (advances_require c).first
  · intro _ _ _
    apply (alike_require inLine).andThen
    intro _
    exact nextParallel

/-!
## Words
-/

theorem alike_identifier? : identifier?.Alike spelling never := by
  intro start other aligned
  have same := spelling.getD_head?_text (p := isIdentifierStart) (by decide) (by decide) start.rest
  obtain ⟨taken, dropped⟩ :=
    spelling.takeWhile_text (p := isIdentifierChar) (by decide) (by decide) start.rest
  simp only [identifier?, aligned.rest, same, taken, dropped]
  split
  · have inLine : '\n' ∉ start.rest.takeWhile isIdentifierChar := by
      intro member
      exact absurd (List.all_eq_true.mp List.all_takeWhile _ member) (by decide)
    exact .done ⟨rfl, aligned.pass_inLine List.takeWhile_append_dropWhile.symm inLine⟩
  · exact .done ⟨rfl, aligned⟩

theorem alike_identifier (also : List Expected) : (identifier also).Alike spelling never := by
  apply alike_identifier?.andThen
  intro found
  cases found with
  | some name => exact alike_pure name
  | none => exact inParallel_unexpected

theorem line_nextSpan_pass (cursor : Cursor) (passed rest : List Char) :
    (cursor.pass passed rest).nextSpan.start.line = cursor.place.line + passed.count '\n' := by
  rw [← Position.line_advanceOver]
  unfold Cursor.nextSpan
  split <;> rfl

theorem alike_literal {loses : SpelledLiteral → Cursor → Prop} : literal.Alike spelling loses := by
  intro start other aligned
  have whole := Literal.whole_scan start.rest
  simp only [literal, aligned.rest]
  cases scanned : Literal.scan start.rest with
  | found value passed rest =>
    rw [spelling.scan_text_found scanned]
    rw [scanned, Literal.Scan.whole_found] at whole
    -- The respelled text begins with the same characters, so none of them was respelled.
    have again := Literal.whole_scan (spelling.text start.rest)
    rw [spelling.scan_text_found scanned, Literal.Scan.whole_found, ← whole, spelling.text_append] at again
    have behind := aligned.pass whole.symm
    rw [← List.append_cancel_right again] at behind
    exact .done ⟨rfl, behind⟩
  | failed fault passed rest =>
    obtain ⟨faultAgain, passedAgain, restAgain, scannedAgain, lines⟩ :=
      spelling.exists_scan_text_failed scanned
    rw [scannedAgain]
    refine .failed ⟨rfl, ?_⟩
    rw [line_nextSpan_pass, line_nextSpan_pass, lines, aligned.place, Position.line_down]
    omega

/-!
## Lists
-/

theorem advances_separated (gap : Reader Unit) (item : Advancing α) (close : Char) :
    (separated gap item close).Advances fun _ => True := by
  have round : (separatedRound gap item close ()).Advances fun _ => True :=
    .andThen fun _ => item.advances.first
  intro start values after asked ran _
  rw [separated, run_rounds] at ran
  cases first : (separatedRound gap item close ()).run start with
  | failed => simp [first] at ran
  | done result middle earlier =>
    have shorter := round _ _ _ _ first trivial
    cases result with
    | stop found =>
      simp only [first] at ran
      obtain ⟨-, rfl, -⟩ := Outcome.done.inj ran
      exact shorter
    | next found further =>
      simp only [first] at ran
      obtain ⟨others, askedLater, later, -, -⟩ := Outcome.joined_eq_done ran
      exact Nat.lt_of_le_of_lt ((rounds _ _ _).forward later).length_le shorter

section

variable {gap : Reader Unit} {item : Advancing α} {close : Char}

/-- What stands behind an item is a bracket or a comma. -/
theorem needsMark_behindItem (mark : IsMark close) (value : α) :
    (do
      if ← eat close then pure (Round.stop [value])
      else if ← eat ',' then pure (Round.next [value] ())
      else unexpected (separators close)).NeedsMark :=
  needsMark_eat_bind mark (needsMark_eat_bind (by decide) (needsMark_unexpected _))

theorem inParallel_separated {same : α → α → Prop} {loses : α → Cursor → Prop}
    (gapParallel : InParallel spelling spelling.Near atEnd (Both spelling Eq) gap gap)
    (itemParallel :
      InParallel spelling spelling.Aligned loses (Both spelling same) item.toReader item.toReader)
    (losesBare : ∀ value after, loses value after → after.IsBare)
    (mark : IsMark close) :
    InParallel spelling spelling.Near never (Both spelling (List.Forall₂ same)) (separated gap item close)
      (separated gap item close) := by
  apply inParallel_rounds_never fun _ _ => True
  · exact fun _ _ _ _ here there => List.rel_append here there
  · intro _ _ _
    apply gapParallel.bindTaking
    · exact fun _ => item.advances.first
    · intro _ _ _
      apply itemParallel.bindBoth
      · intro value after lost
        refine NeedsMark.ensures ?_ (losesBare value after lost)
        exact .andThen fun _ => needsMark_behindItem mark value
      · intro value found related
        have single : List.Forall₂ same [value] [found] := .cons related .nil
        apply gapParallel.aligned.bindBoth
        · intro _ after ended
          exact (needsMark_behindItem mark value).ensures (Cursor.isBare_of_end ended)
        · intro _ _ _
          apply (alike_eat mark.inLine).andThen
          intro closed
          cases closed with
          | true => exact inParallel_pure fun _ _ aligned => ⟨single, aligned⟩
          | false =>
            apply (alike_eat (by decide)).andThen
            intro comma
            cases comma with
            | true => exact inParallel_pure fun _ _ aligned => ⟨⟨single, trivial⟩, .aligned aligned⟩
            | false => exact inParallel_unexpected
  · trivial

theorem alike_separated {loses : α → Cursor → Prop}
    (gapParallel : InParallel spelling spelling.Near atEnd (Both spelling Eq) gap gap)
    (itemAlike : item.toReader.Alike spelling loses)
    (losesBare : ∀ value after, loses value after → after.IsBare) (mark : IsMark close) :
    (separated gap item close).Alike spelling never := by
  have each := inParallel_separated gapParallel itemAlike losesBare mark
  rw [List.forall₂_eq_eq_eq] at each
  exact each.aligned

end

/-- A value with its span, which is moved. -/
def SpanDown (lines : Nat) (same : α → β → Prop) (found : α × Span) (again : β × Span) : Prop :=
  same found.1 again.1 ∧ again.2 = found.2.down lines

theorem inParallel_spanned {same : α → β → Prop} {reader : Reader α} {again : Reader β}
    (parallel : InParallel spelling spelling.Aligned never (Both spelling same) reader again) :
    InParallel spelling spelling.Aligned never (Both spelling (SpanDown spelling.lines same))
      (spanned reader) (spanned again) := by
  apply inParallel_here.andThen
  rintro start _ rfl
  apply parallel.andThen
  intro value found related
  apply inParallel_here.andThen
  rintro stop _ rfl
  exact inParallel_pure_both ⟨related, rfl⟩

/-!
## Types
-/

theorem alike_listMark : listMark.Alike spelling never := by
  apply (alike_eat (by decide)).andThen
  intro opened
  cases opened with
  | true => exact (alike_require (by decide)).andThen fun _ => alike_pure true
  | false => exact alike_pure false

theorem alike_typeArguments {inner : Unit → Advancing TypeRef}
    (innerAlike : (inner ()).toReader.Alike spelling never) : (typeArguments inner).Alike spelling never := by
  apply (alike_eat (by decide)).andThen
  intro opened
  cases opened with
  | true => exact alike_separated inParallel_skipBlanks innerAlike (fun _ _ lost => lost.elim) (by decide)
  | false => exact alike_pure []

theorem alike_typeRef (limit levels : Nat) : (typeRef limit levels).toReader.Alike spelling never := by
  induction levels with
  | zero => exact inParallel_fail
  | succ levels ih =>
    change (typeRefLevel fun _ => typeRef limit levels).Alike spelling never
    rw [typeRefLevel_eq]
    apply (alike_identifier []).andThen
    intro name
    apply (alike_typeArguments ih).andThen
    intro generics
    exact alike_listMark.andThen fun _ => alike_pure _

/-!
## Tags
-/

/-- An equals sign that is missing at the end of one text may stand in the other one. -/
theorem alike_assigned (value : α) : (assigned value).Alike spelling fun found after =>
    found = none ∧ after.rest = [] := by
  apply inParallel_skipBlanks.aligned.bindBoth
  · intro _ start ended found after asked ran
    have missing : start.rest.head? ≠ some '=' := by
      rw [show start.rest = [] from ended, List.head?_nil]
      exact nofun
    rw [run_andThen (run_eat_other missing)] at ran
    obtain ⟨rfl, rfl, -⟩ := Outcome.done.inj ran
    exact ⟨rfl, ended⟩
  · intro _ _ _
    apply (alike_eat (by decide)).andThen
    intro found
    cases found with
    | true => exact alike_pure (some value)
    | false => exact alike_pure none

/-- What stands in front of a missing equals sign is bare. -/
theorem isBare_of_assigned {value : α} {start after : Cursor}
    (read : (assigned value).Reads start none after) (ended : after.rest = []) : start.IsBare := by
  obtain ⟨_, middle, ⟨asked, skipped⟩, read⟩ := reads_bind_iff.mp read
  rw [run_skipBlanks_landed] at skipped
  obtain ⟨-, rfl, -⟩ := Outcome.done.inj skipped
  obtain ⟨found, last, eaten, read⟩ := reads_bind_iff.mp read
  cases found with
  | true => cases (reads_pure_iff.mp read).1
  | false =>
    obtain ⟨-, rfl⟩ := reads_pure_iff.mp read
    rw [eq_of_reads_eat_false eaten] at ended
    intro c member
    rw [← List.takeWhile_append_dropWhile (p := isBlank) (l := start.rest),
      show start.rest.dropWhile isBlank = [] from ended, List.append_nil] at member
    exact .inl (List.all_eq_true.mp List.all_takeWhile c member)

theorem alike_optionKey? : optionKey?.Alike spelling fun found after => found = none ∧ after.IsBare := by
  apply Alike.attempt fun found after => found = none ∧ after.rest = []
  · apply alike_identifier?.andThen
    intro key
    cases key with
    | none => exact alike_pure none
    | some key => exact alike_assigned key
  · rintro key after ⟨impossible, -⟩
    cases impossible
  · rintro start after read ⟨-, ended⟩
    refine ⟨rfl, ?_⟩
    obtain ⟨key, middle, readKey, readMark⟩ := reads_bind_iff.mp read
    cases key with
    | none =>
      obtain ⟨-, rfl⟩ := reads_pure_iff.mp readMark
      obtain ⟨-, rfl⟩ := reads_identifier?_none_iff.mp readKey
      exact Cursor.isBare_of_end ended
    | some key =>
      obtain ⟨-, -, left⟩ := reads_identifier?_some readKey
      have behind := isBare_of_assigned readMark ended
      intro c member
      rw [← List.takeWhile_append_dropWhile (p := isIdentifierChar) (l := start.rest), ← left] at member
      rcases List.mem_append.mp member with inWord | later
      · exact .inr (List.all_eq_true.mp List.all_takeWhile c inWord)
      · exact behind c later

theorem alike_tagItem : tagItem.Alike spelling bare := by
  apply InParallel.bindBoth alike_optionKey?
  · rintro _ after ⟨-, isBare⟩
    exact ensures_bare _ isBare
  · rintro key _ rfl
    cases key with
    | none => exact alike_literal.andThen fun _ => alike_pure _
    | some key =>
      apply inParallel_skipBlanks.aligned.bindBoth
      · exact fun _ after ended => ensures_bare _ (Cursor.isBare_of_end ended)
      · intro _ _ _
        exact alike_literal.andThen fun _ => alike_pure _

theorem alike_tagItems : tagItems.Alike spelling never := by
  apply (alike_eat (by decide)).andThen
  intro opened
  cases opened with
  | false => exact alike_pure []
  | true =>
    apply inParallel_skipBlanks.aligned.bindTaking
    · exact fun _ => advances_eat_bind (advances_separated _ _ _)
    · intro _ _ _
      apply (alike_eat (by decide)).andThen
      intro closed
      cases closed with
      | true => exact alike_pure []
      | false =>
        exact alike_separated inParallel_skipBlanks alike_tagItem (fun _ _ isBare => isBare) (by decide)

theorem alike_tagBody : tagBody.Alike spelling never := by
  apply (alike_identifier []).andThen
  intro name
  exact alike_tagItems.andThen fun _ => alike_pure _

/-- The same tags, at moved places. -/
def TagsDown (lines : Nat) (found again : List (Tag × Span)) : Prop :=
  again = tagsDown lines found

theorem inParallel_tags :
    InParallel spelling spelling.Near atEnd (Both spelling (TagsDown spelling.lines)) tags tags := by
  apply inParallel_rounds (fun _ _ => True) atEnd
  · rintro found _ later _ rfl rfl
    exact List.map_append.symm
  · exact fun _ _ ended => ended
  · exact fun _ _ after ended => ensures_atEnd _ ended
  · intro _ _ _
    apply inParallel_skipTrivia.bindBoth
    · exact fun _ after ended => ensures_atEnd _ ended
    · intro _ _ _
      apply inParallel_here.andThen
      rintro start _ rfl
      apply (alike_eat (by decide)).andThen
      intro isTag
      cases isTag with
      | false => exact inParallel_pure fun _ _ aligned => ⟨rfl, aligned⟩
      | true =>
        apply alike_tagBody.andThen
        intro tag
        apply inParallel_here.andThen
        rintro stop _ rfl
        exact inParallel_pure fun _ _ aligned => ⟨⟨rfl, trivial⟩, .aligned aligned⟩
  · trivial

end Reader

end ApiDef
