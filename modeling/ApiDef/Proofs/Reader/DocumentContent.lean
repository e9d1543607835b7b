import ApiDef.Proofs.Reader.Content
set_option autoImplicit false

/-!
# What documents contain and ask

Declarations, and the loop over them. Comments ask nothing, and a description changes neither what a
declaration asks nor whether it is well-formed.
-/

namespace ApiDef.Reader

open Text

/-!
## Declarations
-/

theorem ensures_values (start : Cursor) :
    (rounds valueRound advances_valueRound ()).Ensures start fun values _ asked =>
      (∀ value ∈ values, isIdentifier value = true) ∧ asked = [] := by
  refine ensures_rounds_each (fun state start => ?_) () start
  refine quiet_skipTrivia.andThen fun _ _ _ => (quiet_eat '}').andThen fun closed afterGap _ => ?_
  cases closed with
  | true => exact ensures_pure ⟨List.forall_mem_nil _, rfl⟩
  | false =>
    refine (ensures_identifier _ afterGap).andThen fun value _ validValue => ?_
    have single : ∀ other ∈ [value], isIdentifier other = true :=
      List.forall_mem_singleton.mpr validValue
    refine quiet_skipTrivia.andThen fun _ _ _ => (quiet_eat '}').andThen fun closed _ _ => ?_
    cases closed with
    | true => exact ensures_pure ⟨single, rfl⟩
    | false =>
      refine (quiet_eat ',').andThen fun comma _ _ => ?_
      cases comma with
      | true => exact ensures_pure ⟨⟨single, rfl⟩, trivial⟩
      | false => exact ensures_unexpected

/-- What holds of a declaration that a grammar allows. -/
def EntityContent (grammar : Grammar) (entity : Entity) (asked : List Question) : Prop :=
  (entity.isWellFormed = true ∧ entity.isAllowed grammar = true
    ∧ entity.nesting ≤ grammar.maxNestingDepth)
    ∧ asked.map Question.subject = entity.subjects

theorem ensures_enumeration (tags : List Tag) (start : Cursor) :
    (enumeration tags).Ensures start fun declared _ asked =>
      declared.tags = tags ∧ isIdentifier declared.name = true
        ∧ (∀ value ∈ declared.values, isIdentifier value = true)
        ∧ asked = [.declare declared.name] := by
  refine quiet_skipTrivia.andThen fun _ afterGap _ => ?_
  refine (ensures_identifier _ afterGap).andThen fun name afterName validName => ?_
  apply ensures_ask_bind
  refine quiet_skipTrivia.andThen fun _ _ _ => (quiet_require '{').andThen fun _ afterBrace _ => ?_
  refine (ensures_values afterBrace).andThen fun values _ validValues => ?_
  exact ensures_pure ⟨rfl, validName, validValues, rfl⟩

theorem ensures_keywordDeclaration {grammar : Grammar} {tags : List (Tag × Span)}
    (validTags : ∀ entry ∈ tags, entry.1.isWellFormed = true) (start : Cursor) :
    (keywordDeclaration grammar tags).Ensures start fun entity _ asked =>
      EntityContent grammar entity asked := by
  have allTags := all_isWellFormed_map validTags
  unfold keywordDeclaration
  split
  next allowed =>
    refine (quiet_eatText _).andThen fun _ afterKeyword _ => ?_
    apply ensures_ask_bind
    refine (ensures_enumeration _ afterKeyword).bind fun declared _ asked facts => ensures_pure ?_
    obtain ⟨sameTags, validName, validValues, rfl⟩ := facts
    refine ⟨⟨?_, allowed, Nat.zero_le _⟩, ?_⟩
    · have allValues := List.all_eq_true.mpr validValues
      simp only [Entity.isWellFormed, sameTags, validName, allTags, allValues, Bool.and_self]
    · simp [Entity.subjects, Question.subject, sameTags]
  next => exact ensures_fail

/-- What holds of a parameter that was read. -/
def ReadParameter.Valid (levels : Nat) (read : ReadParameter) : Prop :=
  read.parameter.isWellFormed = true ∧ read.type.nesting ≤ levels

theorem valid_map_parameter {levels : Nat} {found : List ReadParameter}
    (valid : ∀ read ∈ found, read.Valid levels) :
    (found.map ReadParameter.parameter).all Parameter.isWellFormed = true
      ∧ ∀ parameter ∈ found.map ReadParameter.parameter, parameter.type.nesting ≤ levels := by
  have each : ∀ parameter ∈ found.map ReadParameter.parameter,
      parameter.isWellFormed = true ∧ parameter.type.nesting ≤ levels := by
    intro parameter member
    obtain ⟨read, inFound, rfl⟩ := List.mem_map.mp member
    exact valid read inFound
  constructor
  · exact List.all_eq_true.mpr fun parameter member => (each parameter member).1
  · intro parameter member
    exact (each parameter member).2

theorem ensures_parameters (limit : Nat) (start : Cursor) :
    (parameters (typeRef limit (limit + 1))).Ensures start fun found _ asked =>
      (∀ read ∈ found, read.Valid limit) ∧ asked = [] := by
  refine quiet_skipTrivia.andThen fun _ _ _ => (quiet_eat ')').andThen fun closed after _ => ?_
  cases closed with
  | true => exact ensures_pure ⟨List.forall_mem_nil _, rfl⟩
  | false =>
    refine ensures_separated quiet_skipTrivia (fun start => ?_) after
    refine (ensures_tags start).andThen fun tags afterTags validTags => ?_
    have allTags := all_isWellFormed_map validTags
    refine (ensures_identifier _ afterTags).andThen fun name _ validName => ?_
    refine quiet_skipTrivia.andThen fun _ _ _ => (quiet_require ':').andThen fun _ _ _ => ?_
    refine quiet_skipTrivia.andThen fun _ beforeType _ => ?_
    refine (ensures_spanned (ensures_typeRef limit (limit + 1) beforeType)).andThen ?_
    intro found _ validType
    refine ensures_pure ⟨⟨?_, Nat.le_of_lt_succ validType.2⟩, rfl⟩
    simp only [ReadParameter.parameter, Parameter.isWellFormed, validName, validType.1, allTags,
      Bool.and_self]

theorem ensures_askParameters (found : List ReadParameter) (start : Cursor) :
    (askParameters found).Ensures start fun _ _ asked =>
      asked.map Question.subject
        = (found.map ReadParameter.parameter).flatMap Parameter.subjects := by
  induction found generalizing start with
  | nil => exact ensures_pure rfl
  | cons read others ih =>
    apply ensures_ask_bind
    apply ensures_ask_bind
    refine (ih start).mono fun _ _ asked subjects => ?_
    simp [subjects, Question.subject, Parameter.subjects, ReadParameter.parameter]

theorem ensures_method {limit : Nat} {tags : List (Tag × Span)} {name : String} {namePlace : Span}
    (start : Cursor) :
    (method limit tags name namePlace).Ensures start fun declared _ asked =>
      (declared.name = name ∧ declared.tags = tags.map (·.1)
        ∧ (declared.parameters.all Parameter.isWellFormed && declared.returnType.isWellFormed) = true
        ∧ declared.nesting ≤ limit)
        ∧ asked.map Question.subject = declared.subjects := by
  refine (ensures_parameters limit start).andThen fun found _ validFound => ?_
  refine quiet_skipTrivia.andThen fun _ _ _ => (quiet_require ':').andThen fun _ _ _ => ?_
  refine quiet_skipTrivia.andThen fun _ beforeType _ => ?_
  refine (ensures_spanned (ensures_typeRef limit (limit + 1) beforeType)).andThen ?_
  intro returned afterType validType
  obtain ⟨returnType, returnPlace⟩ := returned
  apply ensures_ask_bind
  refine (ensures_askParameters found afterType).bind fun _ afterParameters parametersAsked same => ?_
  apply ensures_ask_bind
  obtain ⟨validParameters, nestings⟩ := valid_map_parameter validFound
  have validSignature : ((found.map ReadParameter.parameter).all Parameter.isWellFormed
      && returnType.isWellFormed) = true := by
    rw [validParameters, validType.1, Bool.and_self]
  have nesting : Method.nesting ⟨name, none, tags.map (·.1), returnType,
      found.map ReadParameter.parameter⟩ ≤ limit :=
    Method.nesting_le_iff.mpr ⟨nestings, Nat.le_of_lt_succ validType.2⟩
  split
  next isRoute =>
    apply ensures_ask_bind
    refine ensures_pure ⟨⟨rfl, rfl, validSignature, nesting⟩, ?_⟩
    simp [Method.subjects, Question.subject, same, isRoute]
  next notRoute =>
    refine ensures_pure ⟨⟨rfl, rfl, validSignature, nesting⟩, ?_⟩
    simp [Method.subjects, Question.subject, same, notRoute]

/-- What is read as a name where the reserved word does not start is another name. -/
theorem ensures_namedDeclaration {grammar : Grammar} {tags : List (Tag × Span)} {start : Cursor}
    (validTags : ∀ entry ∈ tags, entry.1.isWellFormed = true)
    (notEnumeration : startsEnumeration start.rest = false) :
    (namedDeclaration grammar tags).Ensures start fun entity _ asked =>
      EntityContent grammar entity asked := by
  have allTags := all_isWellFormed_map validTags
  -- A name is the longest word at its place; were it the reserved word, an enumeration would start.
  have named : (identifier [.mark "@", .mark "enum"]).Ensures start fun name _ asked =>
      (isIdentifier name = true ∧ name ≠ "enum") ∧ asked = [] := by
    intro name after asked ran
    obtain ⟨validName, none⟩ := ensures_identifier _ _ _ _ _ ran
    obtain ⟨longest, -⟩ := ensures_identifier_longest _ _ _ _ _ ran
    refine ⟨⟨validName, fun reserved => ?_⟩, none⟩
    rw [reserved] at longest
    have starts : (afterWord? "enum" start.rest).isSome = true :=
      (isSome_afterWord?_iff (by decide)).mpr longest
    rw [startsEnumeration, starts] at notEnumeration
    cases notEnumeration
  refine (ensures_spanned named).andThen fun found _ valid => ?_
  obtain ⟨name, namePlace⟩ := found
  obtain ⟨validName, notReserved⟩ := valid
  refine quiet_skipTrivia.andThen fun _ _ _ => (quiet_look _).andThen fun opensBody beforeBody _ => ?_
  split
  · split
    next allowed =>
      apply ensures_ask_bind
      apply ensures_ask_bind
      refine (quiet_require '{').andThen fun _ afterBrace _ => ?_
      refine (ensures_body _ _ afterBrace).bind fun properties _ asked facts => ensures_pure ?_
      obtain ⟨⟨validBody, nesting⟩, subjects⟩ := facts
      refine ⟨⟨?_, allowed, nesting⟩, ?_⟩
      · simp [Entity.isWellFormed, validName, notReserved, allTags, validBody]
      · simp [Entity.subjects, Question.subject, subjects]
    next => exact ensures_failAt
  · refine (quiet_look _).andThen fun opensParameters _ _ => ?_
    split
    · split
      next allowed =>
        refine (quiet_require '(').andThen fun _ afterParenthesis _ => ?_
        refine (ensures_method afterParenthesis).bind fun declared _ asked facts => ensures_pure ?_
        obtain ⟨⟨sameName, sameTags, validSignature, nesting⟩, subjects⟩ := facts
        refine ⟨⟨?_, allowed, nesting⟩, ?_⟩
        · simp only [Bool.and_eq_true] at validSignature
          simp [Entity.isWellFormed, sameName, sameTags, validName, notReserved, allTags,
            validSignature]
        · simpa [Entity.subjects] using subjects
      next => exact ensures_failAt
    · exact ensures_unexpected

theorem ensures_declaration (grammar : Grammar) (start : Cursor) :
    (declaration grammar).Ensures start fun entity _ asked => EntityContent grammar entity asked := by
  refine (ensures_tags start).andThen fun tags afterTags validTags => ?_
  refine (quiet_look _).andThen fun isEnumeration after ran => ?_
  obtain ⟨starts, rfl, -⟩ := Outcome.done.inj ran
  cases isEnumeration with
  | true => exact ensures_keywordDeclaration validTags afterTags
  | false => exact ensures_namedDeclaration validTags starts

/-- A declaration is no comment. -/
theorem ensures_declaration_declares (grammar : Grammar) (start : Cursor) :
    (declaration grammar).Ensures start fun entity _ _ => entity.isComment = false := by
  refine ensures_bind_value fun tags _ => ensures_bind_value fun isEnumeration after => ?_
  split
  · unfold keywordDeclaration
    split
    · exact ensures_bind_value fun _ _ => ensures_bind_value fun _ _ =>
        ensures_bind_value fun _ _ => ensures_pure rfl
    · exact ensures_fail
  · refine ensures_bind_value fun name _ => ensures_bind_value fun _ _ =>
      ensures_bind_value fun opensBody _ => ?_
    split
    · split
      · exact ensures_bind_value fun _ _ => ensures_bind_value fun _ _ =>
          ensures_bind_value fun _ _ => ensures_bind_value fun _ _ => ensures_pure rfl
      · exact ensures_failAt
    · refine ensures_bind_value fun opensParameters _ => ?_
      split
      · split
        · exact ensures_bind_value fun _ _ => ensures_bind_value fun _ _ => ensures_pure rfl
        · exact ensures_failAt
      · exact ensures_unexpected

/-!
## Documents
-/

theorem splitDescription_append (line : Nat) (comments : List PendingComment) :
    (splitDescription line comments).1 ++ (splitDescription line comments).2 = comments := by
  induction comments generalizing line with
  | nil => rfl
  | cons comment earlier ih =>
    rw [splitDescription]
    split
    · exact congrArg (comment :: ·) (ih _)
    · rfl

theorem mem_of_mem_splitDescription {line : Nat} {comments : List PendingComment}
    {comment : PendingComment} (member : comment ∈ (splitDescription line comments).2) :
    comment ∈ comments := by
  rw [← splitDescription_append line comments]
  exact List.mem_append_right _ member

/-- What holds of the items of a document. -/
def DocumentContent (grammar : Grammar) (items : List Item) (asked : List Question) : Prop :=
  (∀ item ∈ items, item.entity.isWellFormed = true ∧ item.entity.isAllowed grammar = true
    ∧ item.entity.nesting ≤ grammar.maxNestingDepth)
    ∧ asked.map Question.subject = items.flatMap fun item => item.entity.subjects

theorem DocumentContent.append {grammar : Grammar} {first second : List Item}
    {asked later : List Question} (here : DocumentContent grammar first asked)
    (there : DocumentContent grammar second later) :
    DocumentContent grammar (first ++ second) (asked ++ later) := by
  refine ⟨fun item member => ?_, ?_⟩
  · exact (List.mem_append.mp member).elim (here.1 item) (there.1 item)
  · rw [List.map_append, List.flatMap_append, here.2, there.2]

theorem documentContent_commentItems {grammar : Grammar} {comments : List PendingComment}
    (lines : ∀ comment ∈ comments, comment.IsLine) :
    DocumentContent grammar (commentItems comments) [] := by
  refine ⟨fun item member => ?_, ?_⟩
  · obtain ⟨comment, inComments, rfl⟩ := List.mem_map.mp member
    have line := lines comment (List.mem_reverse.mp inComments)
    refine ⟨?_, rfl, Nat.zero_le _⟩
    simpa [PendingComment.item, Entity.isWellFormed, PendingComment.IsLine] using line
  · simp [commentItems, PendingComment.item, Entity.subjects]

theorem ensures_describedDeclaration {grammar : Grammar} {pending : Pending}
    (lines : ∀ comment ∈ pending.comments, comment.IsLine) (start : Cursor) :
    (describedDeclaration grammar pending).Ensures start fun round _ asked =>
      round.Meets (fun pending => ∀ comment ∈ pending.comments, comment.IsLine)
        (DocumentContent grammar · asked) := by
  refine quiet_here.andThen fun place afterPlace _ => ?_
  dsimp only
  refine (ensures_declaration grammar afterPlace).bind fun entity _ asked content => ?_
  refine quiet_here.andThen fun stop _ _ => ensures_pure ⟨?_, fun _ member =>
    absurd member List.not_mem_nil⟩
  have others : ∀ comment ∈ (splitDescription place.line pending.comments).2, comment.IsLine :=
    fun comment member => lines comment (mem_of_mem_splitDescription member)
  refine (documentContent_commentItems others).append ⟨fun item member => ?_, ?_⟩
  · rw [List.mem_singleton.mp member]
    simpa using content.1
  · simpa using content.2

/-- The items of a document are well-formed, allowed and within the nesting limit, and the questions
are those that the entities raise one after the other. -/
theorem ensures_document (grammar : Grammar) (start : Cursor) :
    (document grammar).Ensures start fun items _ asked => DocumentContent grammar items asked := by
  have nothing : DocumentContent grammar [] [] :=
    ⟨fun item member => absurd member List.not_mem_nil, rfl⟩
  refine ensures_rounds (fun pending => ∀ comment ∈ pending.comments, comment.IsLine)
    (DocumentContent grammar) (fun _ _ _ _ here there => here.append there) ?_
    fun _ member => absurd member List.not_mem_nil
  intro pending start lines
  refine quiet_skipBlanks.andThen fun _ _ _ => (quiet_look _).andThen fun ended afterBlanks _ => ?_
  cases ended with
  | true => exact ensures_pure (documentContent_commentItems lines)
  | false =>
    refine (ensures_comment? _ afterBlanks).andThen fun found _ line => ?_
    cases found with
    | some comment =>
      refine ensures_pure ⟨nothing, fun other member => ?_⟩
      rcases List.mem_cons.mp member with rfl | member
      · exact line other rfl
      · exact lines other member
    | none =>
      refine (quiet_look _).andThen fun starts beforeDeclaration _ => ?_
      cases starts with
      | true => exact ensures_describedDeclaration lines beforeDeclaration
      | false => exact ensures_unexpected

end ApiDef.Reader
