import ApiDef.Proofs.Reader.Parts
import ApiDef.Proofs.Reader.Yields
set_option autoImplicit false

/-!
# Readers of looser grammars

A grammar that allows more constructs and deeper nesting reads every text that the stricter one reads,
to the same value at the same place and with the same questions. What it makes of the other texts is
left open.
-/

namespace ApiDef

open Text

/-- What one grammar allows, the other one allows as well. -/
structure Grammar.Within (grammar larger : Grammar) : Prop where
  methods : grammar.methods = true → larger.methods = true
  types : grammar.types = true → larger.types = true
  depth : grammar.maxNestingDepth ≤ larger.maxNestingDepth

namespace Reader

variable {α β σ : Type}

/-- Whatever the first reader comes to, the second one comes to from the same place. -/
def Refines (reader looser : Reader α) : Prop :=
  ∀ start value after asked, reader.run start = .done value after asked →
    looser.run start = .done value after asked

theorem Refines.refl (reader : Reader α) : reader.Refines reader :=
  fun _ _ _ _ ran => ran

/-- A reader that fails everywhere refines every reader. -/
theorem refines_fail {cause : Fault.Cause} {looser : Reader α} : (fail cause).Refines looser := by
  intro start value after asked ran
  simp [fail] at ran

theorem refines_failAt {place : Span} {cause : Fault.Cause} {looser : Reader α} :
    (failAt place cause).Refines looser := by
  intro start value after asked ran
  simp [failAt] at ran

theorem refines_unexpected {expected : List Expected} {looser : Reader α} :
    (unexpected expected).Refines looser := by
  intro start value after asked ran
  simp [unexpected] at ran

theorem Refines.bind {first looser : Reader α} {next looserNext : α → Reader β}
    (firstRefines : first.Refines looser) (nextRefines : ∀ value, (next value).Refines (looserNext value)) :
    (first >>= next).Refines (looser >>= looserNext) := by
  intro start result final asked ran
  rw [run_bind] at ran
  cases firstRan : first.run start with
  | failed fault earlier =>
    rw [firstRan] at ran
    cases ran
  | done value after earlier =>
    rw [firstRan] at ran
    obtain ⟨later, nextRan, rfl⟩ := Outcome.asking_eq_done ran
    rw [run_bind, firstRefines _ _ _ _ firstRan]
    dsimp only
    rw [nextRefines value _ _ _ _ nextRan]
    rfl

/-- The same reader in front of both. -/
theorem Refines.behind {next looserNext : α → Reader β} (first : Reader α)
    (nextRefines : ∀ value, (next value).Refines (looserNext value)) :
    (first >>= next).Refines (first >>= looserNext) :=
  (Refines.refl first).bind nextRefines

theorem Refines.before {first looser : Reader α} (firstRefines : first.Refines looser)
    (next : α → Reader β) : (first >>= next).Refines (looser >>= next) :=
  firstRefines.bind fun value => .refl (next value)

/-- Where one reader is chosen by a check that the other one passes as well. -/
theorem refines_ite {allowed looserAllowed : Bool} {reader looser refusal looserRefusal : Reader α}
    (allows : allowed = true → looserAllowed = true) (refines : reader.Refines looser)
    (refuses : ∀ other : Reader α, refusal.Refines other) :
    (if allowed then reader else refusal).Refines (if looserAllowed then looser else looserRefusal) := by
  cases allowed with
  | true =>
    rw [if_pos rfl, if_pos (allows rfl)]
    exact refines
  | false =>
    rw [if_neg Bool.false_ne_true]
    exact refuses _

/-- A loop of rounds that refine one another, from the same state. -/
theorem refines_rounds {step looserStep : σ → Reader (Round σ β)}
    {advances : ∀ state, (step state).Advances Round.GoesOn}
    {looserAdvances : ∀ state, (looserStep state).Advances Round.GoesOn}
    (round : ∀ state, (step state).Refines (looserStep state)) (state : σ) :
    (rounds step advances state).Refines (rounds looserStep looserAdvances state) := by
  intro start value after asked ran
  change runRounds step advances state start = _ at ran
  rw [run_rounds]
  fun_induction runRounds step advances state start generalizing value asked with
  | case1 => cases ran
  | case2 state start found middle earlier result =>
    rw [round state _ _ _ _ result]
    exact ran
  | case3 state start found further middle earlier result ih =>
    obtain ⟨others, later, inner, rfl, rfl⟩ := Outcome.joined_eq_done ran
    rw [round state _ _ _ _ result]
    dsimp only
    rw [run_rounds, ih _ _ inner]
    rfl

theorem refines_separated {item looserItem : Advancing α} (gap : Reader Unit) (close : Char)
    (itemRefines : item.toReader.Refines looserItem.toReader) :
    (separated gap item close).Refines (separated gap looserItem close) := by
  apply refines_rounds
  intro state
  exact .behind gap fun _ => itemRefines.before _

theorem Refines.spanned {reader looser : Reader α} (refines : reader.Refines looser) :
    (Reader.spanned reader).Refines (Reader.spanned looser) :=
  .behind here fun _ => refines.before _

/-!
## Nesting
-/

section

variable {limit larger : Nat}

theorem refines_typeArguments {inner looserInner : Unit → Advancing TypeRef}
    (innerRefines : (inner ()).toReader.Refines (looserInner ()).toReader) :
    (typeArguments inner).Refines (typeArguments looserInner) := by
  refine .behind (eat '<') fun opened => ?_
  cases opened with
  | true => exact refines_separated skipBlanks '>' innerRefines
  | false => exact .refl _

/-- More levels of generic arguments read all that fewer levels read. -/
theorem refines_typeRef {levels more : Nat} (enough : levels ≤ more) :
    (typeRef limit levels).toReader.Refines (typeRef larger more).toReader := by
  induction levels generalizing more with
  | zero => exact refines_fail
  | succ levels ih =>
    obtain ⟨others, rfl⟩ := Nat.exists_eq_add_of_le' enough
    have inner := ih (Nat.le_add_left levels others)
    change (typeRefLevel fun _ => typeRef limit levels).Refines
      (typeRefLevel fun _ => typeRef larger (others + levels))
    rw [typeRefLevel_eq, typeRefLevel_eq]
    exact .behind (identifier []) fun name => (refines_typeArguments inner).before _

variable {types looserTypes : Advancing TypeRef} {inner looserInner : Unit → Reader (List Property)}

theorem refines_property (typesRefine : types.toReader.Refines looserTypes.toReader)
    (innerRefines : (inner ()).Refines (looserInner ())) :
    (property types inner).Refines (property looserTypes looserInner) := by
  have shape : (propertyShape types inner).Refines (propertyShape looserTypes looserInner) := by
    refine .behind (eat '{') fun isObject => ?_
    cases isObject with
    | true => exact innerRefines.before _
    | false =>
      refine .behind (eat '[') fun isList => ?_
      cases isList with
      | true => exact .behind skipBlanks fun _ => .behind (require '{') fun _ => innerRefines.before _
      | false => exact typesRefine.spanned.before _
  refine .behind tags fun found => .behind (ask _) fun _ => .behind (identifier _) fun name => ?_
  exact .behind skipBlanks fun _ => .behind (require ':') fun _ => .behind skipBlanks fun _ =>
    shape.before _

theorem refines_describedProperty (typesRefine : types.toReader.Refines looserTypes.toReader)
    (innerRefines : (inner ()).Refines (looserInner ())) (pending : Pending) :
    (describedProperty types inner pending).Refines (describedProperty looserTypes looserInner pending) := by
  refine .behind here fun start => ?_
  exact (refines_property typesRefine innerRefines).before _

theorem refines_propertyRound (typesRefine : types.toReader.Refines looserTypes.toReader)
    (innerRefines : (inner ()).Refines (looserInner ())) (pending : Pending) :
    (propertyRound types inner pending).Refines (propertyRound looserTypes looserInner pending) := by
  refine .behind skipBlanks fun _ => .behind (comment? pending.lastCodeLine) fun found => ?_
  cases found with
  | some comment => exact .refl (pure _)
  | none =>
    refine .behind (eat '}') fun closed => ?_
    cases closed with
    | true => exact .refl (pure _)
    | false =>
      refine .behind (look startsDeclaration) fun starts => ?_
      cases starts with
      | true => exact refines_describedProperty typesRefine innerRefines pending
      | false => exact refines_unexpected

/-- A body counts as one level for its types and for the bodies inside it. -/
theorem refines_body {levels more : Nat} (enough : levels ≤ more) :
    (body limit levels).Refines (body larger more) := by
  induction levels generalizing more with
  | zero => exact refines_fail
  | succ levels ih =>
    obtain ⟨others, rfl⟩ := Nat.exists_eq_add_of_le' enough
    refine .behind here fun start => refines_rounds (fun pending => ?_) _
    exact refines_propertyRound (refines_typeRef enough) (ih (Nat.le_add_left levels others)) pending

end

/-!
## Declarations
-/

theorem refines_parameters {types looserTypes : Advancing TypeRef}
    (typesRefine : types.toReader.Refines looserTypes.toReader) :
    (parameters types).Refines (parameters looserTypes) := by
  have one : (parameter types).Refines (parameter looserTypes) := by
    refine .behind tags fun found => .behind (identifier _) fun name => ?_
    exact .behind skipTrivia fun _ => .behind (require ':') fun _ => .behind skipTrivia fun _ =>
      typesRefine.spanned.before _
  refine .behind skipTrivia fun _ => .behind (eat ')') fun closed => ?_
  cases closed with
  | true => exact .refl (pure [])
  | false => exact refines_separated skipTrivia ')' one

theorem refines_method {limit larger : Nat} (enough : limit ≤ larger) (tags : List (Tag × Span))
    (name : String) (namePlace : Span) :
    (method limit tags name namePlace).Refines (method larger tags name namePlace) := by
  have types : (typeRef limit (limit + 1)).toReader.Refines (typeRef larger (larger + 1)).toReader :=
    refines_typeRef (Nat.succ_le_succ enough)
  refine (refines_parameters types).bind fun parameters => .behind skipTrivia fun _ => ?_
  exact .behind (require ':') fun _ => .behind skipTrivia fun _ => types.spanned.before _

variable {grammar larger : Grammar}

theorem refines_keywordDeclaration (within : grammar.Within larger) (tags : List (Tag × Span)) :
    (keywordDeclaration grammar tags).Refines (keywordDeclaration larger tags) :=
  refines_ite within.types (.refl _) fun _ => refines_fail

theorem refines_dataTypeBehindName (within : grammar.Within larger) (tags : List (Tag × Span))
    (name : String) (namePlace : Span) :
    (dataTypeBehindName grammar tags name namePlace).Refines
      (dataTypeBehindName larger tags name namePlace) := by
  apply refines_ite within.types
  · refine .behind (ask _) fun _ => .behind (ask _) fun _ => .behind (require '{') fun _ => ?_
    exact (refines_body within.depth).before _
  · exact fun _ => refines_failAt

theorem refines_methodBehindName (within : grammar.Within larger) (tags : List (Tag × Span))
    (name : String) (namePlace : Span) :
    (methodBehindName grammar tags name namePlace).Refines
      (methodBehindName larger tags name namePlace) := by
  apply refines_ite within.methods
  · refine .behind (require '(') fun _ => ?_
    exact (refines_method within.depth tags name namePlace).before _
  · exact fun _ => refines_failAt

theorem refines_namedDeclaration (within : grammar.Within larger) (tags : List (Tag × Span)) :
    (namedDeclaration grammar tags).Refines (namedDeclaration larger tags) := by
  rw [namedDeclaration_eq, namedDeclaration_eq]
  refine .behind (spanned (identifier _)) fun (name, namePlace) => .behind skipTrivia fun _ => ?_
  refine .behind (lookingAt '{') fun opensBody => ?_
  cases opensBody with
  | true => exact refines_dataTypeBehindName within tags name namePlace
  | false =>
    refine .behind (lookingAt '(') fun opensParameters => ?_
    cases opensParameters with
    | true => exact refines_methodBehindName within tags name namePlace
    | false => exact refines_unexpected

theorem refines_declaration (within : grammar.Within larger) :
    (declaration grammar).Refines (declaration larger) := by
  refine .behind tags fun found => .behind (look startsEnumeration) fun isEnumeration => ?_
  cases isEnumeration with
  | true => exact refines_keywordDeclaration within found
  | false => exact refines_namedDeclaration within found

theorem refines_describedDeclaration (within : grammar.Within larger) (pending : Pending) :
    (describedDeclaration grammar pending).Refines (describedDeclaration larger pending) := by
  refine .behind here fun start => ?_
  exact (refines_declaration within).before _

theorem refines_documentRound (within : grammar.Within larger) (pending : Pending) :
    (documentRound grammar pending).Refines (documentRound larger pending) := by
  refine .behind skipBlanks fun _ => .behind (look List.isEmpty) fun ended => ?_
  cases ended with
  | true => exact .refl (pure _)
  | false =>
    refine .behind (comment? pending.lastCodeLine) fun found => ?_
    cases found with
    | some comment => exact .refl (pure _)
    | none =>
      refine .behind (look startsDeclaration) fun starts => ?_
      cases starts with
      | true => exact refines_describedDeclaration within pending
      | false => exact refines_unexpected

/-- A text that a grammar allows is read alike by every larger grammar. -/
theorem refines_document (within : grammar.Within larger) :
    (document grammar).Refines (document larger) :=
  refines_rounds (refines_documentRound within) _

end Reader

end ApiDef
