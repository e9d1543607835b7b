import ApiDef.Proofs.Reader.Ensures
import ApiDef.Proofs.Reader.Parts
set_option autoImplicit false

/-!
# Readers that ask nothing

Types, tags, parameters, comments and default values raise no questions, also when they cannot be read.
What there is to ask about them is asked by the reader of the property or declaration around them.
-/

namespace ApiDef.Reader

open Text

/-!
## Types
-/

theorem quiet_listMark : listMark.Quiet := by
  refine (quiet_eat '[').bind fun found => ?_
  cases found with
  | true => exact (quiet_require ']').bind fun _ => quiet_pure true
  | false => exact quiet_pure false

theorem quiet_typeArguments {inner : Unit → Advancing TypeRef}
    (innerQuiet : (inner ()).toReader.Quiet) : (typeArguments inner).Quiet := by
  refine (quiet_eat '<').bind fun opened => ?_
  cases opened with
  | true => exact quiet_separated quiet_skipBlanks innerQuiet
  | false => exact quiet_pure []

theorem quiet_typeRef (limit levels : Nat) : (typeRef limit levels).toReader.Quiet := by
  induction levels with
  | zero => exact quiet_fail _
  | succ levels ih =>
    change (typeRefLevel fun _ => typeRef limit levels).Quiet
    rw [typeRefLevel_eq]
    exact (quiet_identifier []).bind fun _ => (quiet_typeArguments ih).bind fun _ =>
      quiet_listMark.bind fun _ => quiet_pure _

/-!
## Tags
-/

theorem quiet_assigned {α : Type} (value : α) : (assigned value).Quiet := by
  refine quiet_skipBlanks.bind fun _ => (quiet_eat '=').bind fun found => ?_
  cases found with
  | true => exact quiet_pure _
  | false => exact quiet_pure _

theorem quiet_optionKey? : optionKey?.Quiet := by
  refine Quiet.attempt (quiet_identifier?.bind fun found => ?_)
  cases found with
  | none => exact quiet_pure none
  | some key => exact quiet_assigned key

theorem quiet_tagItem : tagItem.Quiet := by
  refine quiet_optionKey?.bind fun found => ?_
  cases found with
  | none => exact quiet_literal.bind fun _ => quiet_pure _
  | some key => exact quiet_skipBlanks.bind fun _ => quiet_literal.bind fun _ => quiet_pure _

theorem quiet_tagItems : tagItems.Quiet := by
  refine (quiet_eat '(').bind fun opened => ?_
  cases opened with
  | false => exact quiet_pure []
  | true =>
    refine quiet_skipBlanks.bind fun _ => (quiet_eat ')').bind fun closed => ?_
    cases closed with
    | true => exact quiet_pure []
    | false => exact quiet_separated quiet_skipBlanks quiet_tagItem

theorem quiet_tagBody : tagBody.Quiet :=
  (quiet_identifier []).bind fun _ => quiet_tagItems.bind fun _ => quiet_pure _

theorem quiet_tags : tags.Quiet := by
  refine quiet_rounds (fun state => ?_) ()
  refine quiet_skipTrivia.bind fun _ => quiet_here.bind fun _ => (quiet_eat '@').bind fun isTag => ?_
  cases isTag with
  | false => exact quiet_pure _
  | true => exact quiet_tagBody.bind fun _ => quiet_here.bind fun _ => quiet_pure _

/-!
## Parts of properties and declarations
-/

theorem quiet_defaultValue? : defaultValue?.Quiet := by
  refine (quiet_assigned ()).attempt.bind fun assigned => ?_
  cases assigned with
  | none => exact quiet_pure none
  | some => exact quiet_skipBlanks.bind fun _ => quiet_literal.bind fun _ => quiet_pure _

theorem quiet_eatSeparator : eatSeparator.Quiet := by
  refine (quiet_eat ',').bind fun found => ?_
  cases found with
  | true => exact quiet_pure true
  | false => exact quiet_eat ';'

theorem quiet_commentBehindMark (lastCodeLine : Nat) (start : Position) (slashed : Bool) :
    (commentBehindMark lastCodeLine start slashed).Quiet :=
  (quiet_takeWhile _).bind fun _ => quiet_here.bind fun _ => quiet_pure _

theorem quiet_comment? (lastCodeLine : Nat) : (comment? lastCodeLine).Quiet := by
  rw [comment?_eq]
  refine quiet_here.bind fun start => (quiet_eatText _).bind fun slashed => ?_
  cases slashed with
  | true => exact quiet_commentBehindMark _ _ _
  | false =>
    refine (quiet_eat '#').bind fun hashed => ?_
    cases hashed with
    | true => exact quiet_commentBehindMark _ _ _
    | false => exact quiet_pure none

theorem quiet_valueRound (state : Unit) : (valueRound state).Quiet := by
  refine quiet_skipTrivia.bind fun _ => (quiet_eat '}').bind fun closed => ?_
  cases closed with
  | true => exact quiet_pure _
  | false =>
    refine (quiet_identifier _).bind fun value => quiet_skipTrivia.bind fun _ =>
      (quiet_eat '}').bind fun closed => ?_
    cases closed with
    | true => exact quiet_pure _
    | false =>
      refine (quiet_eat ',').bind fun comma => ?_
      cases comma with
      | true => exact quiet_pure _
      | false => exact quiet_unexpected _

theorem quiet_parameter {types : Advancing TypeRef} (typesQuiet : types.toReader.Quiet) :
    (parameter types).Quiet :=
  quiet_tags.bind fun _ => (quiet_identifier _).bind fun _ => quiet_skipTrivia.bind fun _ =>
    (quiet_require ':').bind fun _ => quiet_skipTrivia.bind fun _ =>
      (quiet_spanned typesQuiet).bind fun _ => quiet_pure _

theorem quiet_parameters {types : Advancing TypeRef} (typesQuiet : types.toReader.Quiet) :
    (parameters types).Quiet := by
  refine quiet_skipTrivia.bind fun _ => (quiet_eat ')').bind fun closed => ?_
  cases closed with
  | true => exact quiet_pure []
  | false => exact quiet_separated quiet_skipTrivia (quiet_parameter typesQuiet)

end ApiDef.Reader
