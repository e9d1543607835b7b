import ApiDef.Proofs.Reader.DeclarationReplayed
import ApiDef.Proofs.Reader.WordsInParallel
set_option autoImplicit false

/-!
# Comments, bodies and declarations in parallel

A comment ends with its line and leaves out a carriage return there, so it has the same text in both
texts. A declaration ends with a bracket, except for a method, which ends with a word; either way the
second reader is not lost behind it.
-/

namespace ApiDef

open Text

namespace Text.Respelling

variable {spelling : Respelling} {first second : Cursor}

theorem Near.line (near : spelling.Near first second) :
    second.place.line = first.place.line + spelling.lines := by
  cases near with
  | aligned aligned => rw [aligned.place, Position.line_down]
  | behindReturn _ aligned _ place =>
    rw [place, aligned.place]
    rfl

theorem Near.place_of_plain (near : spelling.Near first second) (plain : spelling.returns = false) :
    second.place = first.place.down spelling.lines := by
  cases near with
  | aligned aligned => exact aligned.place
  | behindReturn returns =>
    rw [plain] at returns
    cases returns

end Text.Respelling

namespace Reader

variable {α β : Type} {spelling : Respelling}

/-!
## Comments
-/

/-- A comment of the respelled text. Its span may end behind a carriage return. -/
structure PendingComment.Follows (spelling : Respelling) (comment again : PendingComment) : Prop where
  text : again.text = comment.text
  slashed : again.slashed = comment.slashed
  alone : again.alone = comment.alone
  start : again.span.start = comment.span.start.down spelling.lines
  stopLine : again.span.stop.line = comment.span.stop.line + spelling.lines
  stop : spelling.returns = false → again.span.stop = comment.span.stop.down spelling.lines

structure Pending.Follows (spelling : Respelling) (pending again : Pending) : Prop where
  comments : List.Forall₂ (PendingComment.Follows spelling) pending.comments again.comments
  lastCodeLine : again.lastCodeLine = pending.lastCodeLine + spelling.lines

/-- What the second reader finds follows what the first one finds, at the end of the line if anything was
found. -/
def FollowsComment (spelling : Respelling) (found again : Option PendingComment) (after behind : Cursor) :
    Prop :=
  Option.Rel (PendingComment.Follows spelling) found again
    ∧ if found.isSome then spelling.Near after behind else spelling.Aligned after behind

theorem run_commentBehindMark (lastCodeLine : Nat) (start : Position) (slashed : Bool) (cursor : Cursor) :
    (commentBehindMark lastCodeLine start slashed).run cursor
      = .done (some ⟨String.ofList (dropCarriageReturn (cursor.rest.takeWhile (· ≠ '\n'))), slashed,
          lastCodeLine < start.line, ⟨start, cursor.atLineEnd.place⟩⟩) cursor.atLineEnd [] := rfl

section

variable {lastCodeLine lineAgain : Nat} (moved : lineAgain = lastCodeLine + spelling.lines)

include moved

theorem inParallel_commentBehindMark (start : Position) (slashed : Bool) :
    InParallel spelling spelling.Aligned never (FollowsComment spelling)
      (commentBehindMark lastCodeLine start slashed)
      (commentBehindMark lineAgain (start.down spelling.lines) slashed) := by
  intro cursor other aligned
  have behind := aligned.atLineEnd
  rw [run_commentBehindMark, run_commentBehindMark, aligned.rest,
    spelling.dropCarriageReturn_text aligned.plain]
  refine .done ⟨.some ?_, behind⟩
  constructor
  · rfl
  · rfl
  · rw [moved, Position.line_down]
    exact decide_eq_decide.mpr Nat.add_lt_add_iff_right
  · rfl
  · exact behind.line
  · exact behind.place_of_plain

theorem inParallel_comment? :
    InParallel spelling spelling.Aligned never (FollowsComment spelling) (comment? lastCodeLine)
      (comment? lineAgain) := by
  rw [comment?_eq, comment?_eq]
  apply inParallel_here.andThen
  rintro start _ rfl
  apply (alike_eatText (by decide)).andThen
  intro slashed
  cases slashed with
  | true => exact inParallel_commentBehindMark moved start true
  | false =>
    apply (alike_eat (by decide)).andThen
    intro hashed
    cases hashed with
    | true => exact inParallel_commentBehindMark moved start false
    | false => exact inParallel_pure fun _ _ aligned => ⟨.none, aligned⟩

end

/-- The same comments describe what stands behind them, and the same ones do not. -/
theorem follows_splitDescription {comments again : List PendingComment}
    (follow : List.Forall₂ (PendingComment.Follows spelling) comments again) (line : Nat) :
    List.Forall₂ (PendingComment.Follows spelling) (splitDescription line comments).1
        (splitDescription (line + spelling.lines) again).1
      ∧ List.Forall₂ (PendingComment.Follows spelling) (splitDescription line comments).2
        (splitDescription (line + spelling.lines) again).2 := by
  induction follow generalizing line with
  | nil => exact ⟨.nil, .nil⟩
  | @cons comment copy earlier others here later ih =>
    have adjoins : copy.span.start.line + 1 = line + spelling.lines ↔ comment.span.start.line + 1 = line := by
      rw [here.start, Position.line_down]
      omega
    simp only [splitDescription, here.slashed, here.alone, adjoins]
    split
    · obtain ⟨describing, rest⟩ := ih comment.span.start.line
      rw [here.start, Position.line_down]
      exact ⟨.cons here describing, rest⟩
    · exact ⟨.nil, .cons here later⟩

theorem descriptionOf_follows {describing again : List PendingComment}
    (follow : List.Forall₂ (PendingComment.Follows spelling) describing again) :
    descriptionOf again = descriptionOf describing := by
  apply descriptionOf_eq_of_texts
  induction follow with
  | nil => rfl
  | cons here _ ih => rw [List.map_cons, List.map_cons, here.text, ih]

theorem alike_startsDeclaration : (look startsDeclaration).Alike spelling never :=
  alike_look (spelling.getD_head?_text (by decide) (by decide))

/-!
## Readers that need a mark
-/

theorem needsMark_comment?_bind {lastCodeLine : Nat} {next : Option PendingComment → Reader α}
    (other : (next none).NeedsMark) : (comment? lastCodeLine >>= next).NeedsMark := by
  intro start result stop isBare
  have noComment : startsComment start.rest = false := by
    cases starts : startsComment start.rest with
    | false => rfl
    | true =>
      obtain ⟨slashed, others, rest⟩ := exists_commentMark starts
      have marks : (commentMark slashed).all (fun c => IsMark c) = true := by
        cases slashed <;> decide
      obtain ⟨c, member⟩ := List.exists_mem_of_ne_nil (commentMark slashed) (by cases slashed <;> decide)
      have mark : IsMark c := of_decide_eq_true (List.all_eq_true.mp marks c member)
      refine absurd ?_ (mark.not_mem_of_isBare isBare)
      rw [rest]
      exact List.mem_append_left _ member
  rw [Reads, run_andThen (run_comment?_none lastCodeLine noComment)]
  exact other start result stop isBare

theorem needsMark_rounds {σ : Type} {step : σ → Reader (Round σ β)}
    {advances : ∀ state, (step state).Advances Round.GoesOn} (needs : ∀ state, (step state).NeedsMark)
    (state : σ) : (rounds step advances state).NeedsMark := by
  rintro start found stop isBare ⟨asked, ran⟩
  rw [run_rounds] at ran
  cases first : (step state).run start with
  | failed =>
    rw [first] at ran
    cases ran
  | done result middle earlier => exact needs state start result middle isBare ⟨earlier, first⟩

section

variable {types : Advancing TypeRef} {inner : Unit → Reader (List Property)}

theorem needsMark_property : (property types inner).NeedsMark := by
  apply NeedsMark.andThen
  intro _
  apply NeedsMark.andThen
  intro _
  apply NeedsMark.andThen
  intro _
  apply NeedsMark.andThen
  intro _
  exact (needsMark_require (by decide)).bind

theorem needsMark_describedProperty (pending : Pending) :
    (describedProperty types inner pending).NeedsMark :=
  .andThen fun _ => needsMark_property.bind

/-- What stands in a body behind its comments. -/
theorem needsMark_behindComments (pending : Pending) :
    (do
      if ← eat '}' then pure (Round.stop [])
      else if ← look startsDeclaration then describedProperty types inner pending
      else unexpected [.mark "@", .closeBrace, .comment, .identifier]).NeedsMark := by
  apply needsMark_eat_bind (by decide)
  apply NeedsMark.andThen
  intro starts
  cases starts with
  | true => exact needsMark_describedProperty pending
  | false => exact needsMark_unexpected _

theorem needsMark_propertyRound (pending : Pending) : (propertyRound types inner pending).NeedsMark := by
  apply NeedsMark.andThen
  intro _
  exact needsMark_comment?_bind (needsMark_behindComments pending)

/-!
## Bodies
-/

theorem alike_defaultValue? : defaultValue?.Alike spelling bare := by
  have assignment : (Reader.attempt (assigned ())).Alike spelling fun found after =>
      found = none ∧ after.IsBare := by
    apply (alike_assigned ()).attempt
    · rintro found after ⟨impossible, -⟩
      cases impossible
    · rintro start after read ⟨-, ended⟩
      exact ⟨rfl, isBare_of_assigned read ended⟩
  apply InParallel.bindBoth assignment
  · rintro _ after ⟨-, isBare⟩
    exact ensures_bare _ isBare
  · rintro assigned _ rfl
    cases assigned with
    | none => exact alike_pure none
    | some =>
      apply inParallel_skipBlanks.aligned.bindTaking
      · exact fun _ => advances_literal.first
      · intro _ _ _
        exact alike_literal.andThen fun _ => alike_pure _

theorem advances_propertyShape (types : Advancing TypeRef) (inner : Unit → Reader (List Property)) :
    (propertyShape types inner).Advances fun _ => True := by
  apply advances_eat_bind
  apply advances_eat_bind
  exact (advances_spanned types.advances).first

variable (typesAlike : types.toReader.Alike spelling never)

include typesAlike

theorem alike_propertyShape (innerAlike : (inner ()).Alike spelling never) :
    (propertyShape types inner).Alike spelling never := by
  apply (alike_eat (by decide)).andThen
  intro opened
  cases opened with
  | true => exact innerAlike.andThen fun _ => alike_pure _
  | false =>
    apply (alike_eat (by decide)).andThen
    intro listed
    cases listed with
    | true =>
      apply inParallel_skipBlanks.aligned.thenRequire (by decide)
      apply innerAlike.andThen
      intro properties
      exact inParallel_skipBlanks.aligned.thenRequire (by decide) (alike_pure _)
    | false =>
      apply (inParallel_spanned typesAlike).andThen
      rintro ⟨type, place⟩ ⟨_, _⟩ ⟨rfl, rfl⟩
      apply (inParallel_ask _).andThen
      intro _ _ _
      exact alike_pure _

theorem alike_property (innerAlike : (inner ()).Alike spelling never) :
    (property types inner).Alike spelling bare := by
  apply inParallel_tags.aligned.bindTaking
  · exact fun _ => .andThen fun _ => (advances_identifier _).first
  · rintro tags _ rfl
    apply (inParallel_ask _).andThen
    intro _ _ _
    apply (alike_identifier _).andThen
    intro name
    apply inParallel_skipBlanks.aligned.thenRequire (by decide)
    apply inParallel_skipBlanks.aligned.bindTaking
    · exact fun _ => (advances_propertyShape types inner).first
    · intro _ _ _
      apply (alike_propertyShape typesAlike innerAlike).andThen
      intro shape
      apply InParallel.bindBoth alike_defaultValue?
      · exact fun _ after isBare => ensures_bare _ isBare
      · rintro defaultValue _ rfl
        rw [map_fst_tagsDown]
        exact alike_pure _

/-- Behind a property, blanks and words may be left that belong to no property. -/
def bareRound (result : Round Pending Property) (after : Cursor) : Prop :=
  result.GoesOn ∧ after.IsBare

omit typesAlike in
theorem ensures_bareRound {reader : Reader (Round Pending Property)} {start : Cursor} (isBare : start.IsBare)
    (goesOn : reader.Ensures start fun result _ _ => result.GoesOn) :
    reader.Ensures start fun result after _ => bareRound result after :=
  fun _ _ _ ran => ⟨goesOn _ _ _ ran, isBare.of_reaches (reader.forward ran)⟩

theorem inParallel_describedProperty (innerAlike : (inner ()).Alike spelling never)
    {pending again : Pending} (follows : pending.Follows spelling again) :
    InParallel spelling spelling.Aligned bareRound (Round.InStep spelling Eq (Pending.Follows spelling))
      (describedProperty types inner pending) (describedProperty types inner again) := by
  apply inParallel_here.andThen
  rintro start _ rfl
  have description := descriptionOf_follows (follows_splitDescription follows.comments start.line).1
  rw [Position.line_down, description]
  apply InParallel.bindBoth (alike_property typesAlike innerAlike)
  · intro property after isBare
    apply ensures_bareRound isBare
    apply ensures_bind_value
    intro stop _
    apply ensures_bind_value
    intro _ _
    apply ensures_bind_value
    intro separated _
    exact ensures_bind_value fun _ _ => ensures_pure trivial
  · rintro property _ rfl
    apply inParallel_here.andThen
    rintro stop _ rfl
    apply inParallel_skipBlanks.aligned.bindBoth
    · intro _ after ended
      apply ensures_bareRound (Cursor.isBare_of_end ended)
      apply ensures_bind_value
      intro separated _
      exact ensures_bind_value fun _ _ => ensures_pure trivial
    · intro _ _ _
      have separator : eatSeparator.Alike spelling never := by
        apply (alike_eat (by decide)).andThen
        intro comma
        cases comma with
        | true => exact alike_pure true
        | false => exact alike_eat (by decide)
      apply separator.andThen
      intro separated
      apply inParallel_here.andThen
      rintro after _ rfl
      apply inParallel_pure
      intro _ _ aligned
      refine ⟨⟨rfl, .nil, ?_⟩, .aligned aligned⟩
      cases separated with
      | true => rfl
      | false => rfl

theorem inParallel_propertyRound (innerAlike : (inner ()).Alike spelling never) {pending again : Pending}
    (follows : pending.Follows spelling again) :
    InParallel spelling spelling.Near bareRound (Round.InStep spelling Eq (Pending.Follows spelling))
      (propertyRound types inner pending) (propertyRound types inner again) := by
  apply inParallel_skipBlanks.bindBoth
  · intro _ after ended
    exact NeedsMark.ensures (needsMark_comment?_bind (needsMark_behindComments pending))
      (Cursor.isBare_of_end ended)
  · intro _ _ _
    apply (inParallel_comment? follows.lastCodeLine).bind
    · exact fun _ _ lost => lost.elim
    · rintro found copy start other ⟨same, behind⟩
      cases same with
      | some here => exact .done ⟨⟨rfl, .cons here follows.comments, follows.lastCodeLine⟩, behind⟩
      | none =>
        revert start other
        apply (alike_eat (by decide)).andThen
        intro closed
        cases closed with
        | true => exact inParallel_pure fun _ _ aligned => ⟨rfl, aligned⟩
        | false =>
          apply alike_startsDeclaration.andThen
          intro starts
          cases starts with
          | true => exact inParallel_describedProperty typesAlike innerAlike follows
          | false => exact inParallel_unexpected

end

theorem alike_body (limit levels : Nat) : (body limit levels).Alike spelling never := by
  induction levels with
  | zero => exact inParallel_fail
  | succ levels ih =>
    apply inParallel_here.andThen
    rintro start _ rfl
    refine (inParallel_rounds (Pending.Follows spelling) bareRound ?_ ?_ ?_ ?_ ?_).aligned
    · rintro found _ later _ rfl rfl
      rfl
    · rintro found after ⟨goesOn, -⟩
      exact goesOn.elim
    · rintro found further after ⟨-, isBare⟩
      exact (needsMark_rounds needsMark_propertyRound further).ensures isBare
    · intro pending again follows
      exact inParallel_propertyRound (alike_typeRef limit (levels + 1)) ih follows
    · exact ⟨.nil, rfl⟩

/-!
## Enumerations
-/

theorem alike_values : (rounds valueRound advances_valueRound ()).Alike spelling never := by
  refine (inParallel_rounds_never (fun _ _ => True) ?_ ?_ ?_).aligned
  · rintro found _ later _ rfl rfl
    rfl
  · intro _ _ _
    apply inParallel_skipTrivia.bindTaking
    · exact fun _ => advances_eat_bind (advances_identifier _).first
    · intro _ _ _
      apply (alike_eat (by decide)).andThen
      intro closed
      cases closed with
      | true => exact inParallel_pure fun _ _ aligned => ⟨rfl, aligned⟩
      | false =>
        apply (alike_identifier _).andThen
        intro value
        apply inParallel_skipTrivia.aligned.bindTaking
        · exact fun _ => advances_eat_bind (advances_eat_bind advances_unexpected)
        · intro _ _ _
          apply (alike_eat (by decide)).andThen
          intro closed
          cases closed with
          | true => exact inParallel_pure fun _ _ aligned => ⟨rfl, aligned⟩
          | false =>
            apply (alike_eat (by decide)).andThen
            intro comma
            cases comma with
            | true => exact inParallel_pure fun _ _ aligned => ⟨⟨rfl, trivial⟩, .aligned aligned⟩
            | false => exact inParallel_unexpected
  · trivial

theorem alike_enumeration (tags : List Tag) : (enumeration tags).Alike spelling never := by
  apply inParallel_skipTrivia.aligned.bindTaking
  · exact fun _ => (advances_identifier []).first
  · intro _ _ _
    apply (alike_identifier []).andThen
    intro name
    apply (inParallel_ask (.declare name)).andThen
    intro _ _ _
    apply inParallel_skipTrivia.aligned.thenRequire (by decide)
    exact alike_values.andThen fun _ => alike_pure _

/-!
## Methods
-/

/-- The parameter as it is read further down. -/
def ReadParameter.Follows (lines : Nat) (read again : ReadParameter) : Prop :=
  again = ⟨read.name, tagsDown lines read.tags, read.type, read.typePlace.down lines⟩

theorem inParallel_parameter {types : Advancing TypeRef} (typesAlike : types.toReader.Alike spelling never) :
    InParallel spelling spelling.Aligned never (Both spelling (ReadParameter.Follows spelling.lines))
      (parameter types) (parameter types) := by
  apply inParallel_tags.aligned.bindTaking
  · exact fun _ => (advances_identifier _).first
  · rintro tags _ rfl
    apply (alike_identifier _).andThen
    intro name
    apply inParallel_skipTrivia.aligned.thenRequire (by decide)
    apply inParallel_skipTrivia.aligned.bindTaking
    · exact fun _ => (advances_spanned types.advances).first
    · intro _ _ _
      apply (inParallel_spanned typesAlike).andThen
      rintro ⟨type, place⟩ ⟨_, _⟩ ⟨rfl, rfl⟩
      exact inParallel_pure_both rfl

theorem inParallel_parameters {types : Advancing TypeRef} (typesAlike : types.toReader.Alike spelling never) :
    InParallel spelling spelling.Aligned never
      (Both spelling (List.Forall₂ (ReadParameter.Follows spelling.lines))) (parameters types)
      (parameters types) := by
  apply inParallel_skipTrivia.aligned.bindTaking
  · exact fun _ => advances_eat_bind (advances_separated _ _ _)
  · intro _ _ _
    apply (alike_eat (by decide)).andThen
    intro closed
    cases closed with
    | true => exact inParallel_pure_both .nil
    | false =>
      exact (inParallel_separated inParallel_skipTrivia (inParallel_parameter typesAlike)
        (fun _ _ lost => lost.elim) (by decide)).aligned

theorem inParallel_askParameters {found again : List ReadParameter}
    (follow : List.Forall₂ (ReadParameter.Follows spelling.lines) found again) :
    InParallel spelling spelling.Aligned never (Both spelling Eq) (askParameters found)
      (askParameters again) := by
  induction follow with
  | nil => exact alike_pure ()
  | cons here _ ih =>
    subst here
    apply (inParallel_ask _).andThen
    intro _ _ _
    apply (inParallel_ask _).andThen
    intro _ _ _
    exact ih

theorem parameter_follows {lines : Nat} {found again : List ReadParameter}
    (follow : List.Forall₂ (ReadParameter.Follows lines) found again) :
    again.map ReadParameter.parameter = found.map ReadParameter.parameter := by
  induction follow with
  | nil => rfl
  | cons here _ ih =>
    subst here
    rw [List.map_cons, List.map_cons, ih, ReadParameter.parameter, map_fst_tagsDown]
    rfl

theorem inParallel_method (limit : Nat) (tags : List (Tag × Span)) (name : String) (namePlace : Span) :
    InParallel spelling spelling.Aligned never (Both spelling Eq) (method limit tags name namePlace)
      (method limit (tagsDown spelling.lines tags) name (namePlace.down spelling.lines)) := by
  have typesAlike : (typeRef limit (limit + 1)).toReader.Alike spelling never := alike_typeRef _ _
  apply (inParallel_parameters typesAlike).andThen
  intro parameters again follow
  apply inParallel_skipTrivia.aligned.thenRequire (by decide)
  apply inParallel_skipTrivia.aligned.bindTaking
  · exact fun _ => (advances_spanned (typeRef limit (limit + 1)).advances).first
  · intro _ _ _
    apply (inParallel_spanned typesAlike).andThen
    rintro ⟨returnType, returnPlace⟩ ⟨_, _⟩ ⟨rfl, rfl⟩
    simp only [map_fst_tagsDown, parameter_follows follow, Span.merge_down]
    apply (inParallel_ask _).andThen
    intro _ _ _
    apply (inParallel_askParameters follow).andThen
    intro _ _ _
    apply (inParallel_ask _).andThen
    intro _ _ _
    split
    · apply (inParallel_ask _).andThen
      intro _ _ _
      exact alike_pure _
    · exact alike_pure _

/-!
## Declarations
-/

theorem alike_startsEnumeration : (look startsEnumeration).Alike spelling never := by
  apply alike_look
  intro cs
  rw [startsEnumeration, spelling.afterWord?_text (by decide), Option.isSome_map]
  rfl

section

variable (grammar : Grammar) (tags : List (Tag × Span))

theorem inParallel_keywordDeclaration :
    InParallel spelling spelling.Aligned never (Both spelling Eq) (keywordDeclaration grammar tags)
      (keywordDeclaration grammar (tagsDown spelling.lines tags)) := by
  rw [keywordDeclaration, keywordDeclaration, map_fst_tagsDown]
  split
  · apply (alike_eatText (by decide)).andThen
    intro _
    apply (inParallel_ask _).andThen
    intro _ _ _
    exact (alike_enumeration _).andThen fun _ => alike_pure _
  · exact inParallel_fail

theorem inParallel_dataTypeBehindName (name : String) (namePlace : Span) :
    InParallel spelling spelling.Aligned never (Both spelling Eq)
      (dataTypeBehindName grammar tags name namePlace)
      (dataTypeBehindName grammar (tagsDown spelling.lines tags) name (namePlace.down spelling.lines)) := by
  rw [dataTypeBehindName, dataTypeBehindName, map_fst_tagsDown]
  split
  · apply (inParallel_ask _).andThen
    intro _ _ _
    apply (inParallel_ask (.declare name)).andThen
    intro _ _ _
    apply (alike_require (by decide)).andThen
    intro _
    exact (alike_body _ _).andThen fun _ => alike_pure _
  · exact inParallel_failAt

theorem inParallel_methodBehindName (name : String) (namePlace : Span) :
    InParallel spelling spelling.Aligned never (Both spelling Eq)
      (methodBehindName grammar tags name namePlace)
      (methodBehindName grammar (tagsDown spelling.lines tags) name (namePlace.down spelling.lines)) := by
  unfold methodBehindName
  split
  · apply (alike_require (by decide)).andThen
    intro _
    apply (inParallel_method _ _ _ _).andThen
    rintro declared _ rfl
    exact alike_pure _
  · exact inParallel_failAt

theorem inParallel_declarationBehindName (name : String) (namePlace : Span) :
    InParallel spelling spelling.Aligned never (Both spelling Eq)
      (declarationBehindName grammar tags name namePlace)
      (declarationBehindName grammar (tagsDown spelling.lines tags) name
        (namePlace.down spelling.lines)) := by
  apply (alike_lookingAt (by decide)).andThen
  intro opensBody
  cases opensBody with
  | true => exact inParallel_dataTypeBehindName grammar tags name namePlace
  | false =>
    apply (alike_lookingAt (by decide)).andThen
    intro opensParameters
    cases opensParameters with
    | true => exact inParallel_methodBehindName grammar tags name namePlace
    | false => exact inParallel_unexpected

theorem advances_declarationBehindName (name : String) (namePlace : Span) :
    (declarationBehindName grammar tags name namePlace).Advances fun _ => True := by
  apply Advances.andThen
  intro opensBody
  cases opensBody with
  | true => exact breaksWord_dataTypeBehindName.advances
  | false =>
    apply Advances.andThen
    intro opensParameters
    cases opensParameters with
    | true => exact breaksWord_methodBehindName.advances
    | false => exact advances_unexpected

theorem inParallel_namedDeclaration :
    InParallel spelling spelling.Aligned never (Both spelling Eq) (namedDeclaration grammar tags)
      (namedDeclaration grammar (tagsDown spelling.lines tags)) := by
  rw [namedDeclaration_eq, namedDeclaration_eq]
  apply (inParallel_spanned (alike_identifier _)).andThen
  rintro ⟨name, namePlace⟩ ⟨_, _⟩ ⟨rfl, rfl⟩
  apply inParallel_skipTrivia.aligned.bindTaking
  · exact fun _ => advances_declarationBehindName grammar tags name namePlace
  · intro _ _ _
    exact inParallel_declarationBehindName grammar tags name namePlace

end

/-- A declaration is read alike from a respelled text, whatever stands behind the text. -/
theorem alike_declaration (grammar : Grammar) : (declaration grammar).Alike spelling never := by
  apply inParallel_tags.aligned.bindTaking
  · intro tags
    apply Advances.andThen
    intro isEnumeration
    cases isEnumeration with
    | true => exact advances_keywordDeclaration grammar tags
    | false => exact (advances_spanned (advances_identifier _)).first
  · rintro tags _ rfl
    apply alike_startsEnumeration.andThen
    intro isEnumeration
    cases isEnumeration with
    | true => exact inParallel_keywordDeclaration grammar tags
    | false => exact inParallel_namedDeclaration grammar tags

end Reader

end ApiDef
