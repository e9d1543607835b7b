import ApiDef.Proofs.Document.Findings
import ApiDef.Proofs.Reader.DocumentStep
import ApiDef.Proofs.Reader.InStep
set_option autoImplicit false

/-!
# The comments of a document

Every comment token of a text that starts outside the declarations is kept, once and in its place: as an
entity, or as a line of the description of the declaration that it stands in front of.
-/

namespace ApiDef

open Text

/-- What a comment token says: not its mark, and not one trailing carriage return. -/
def Token.commentText (token : Token) : String :=
  match token.value.toList with
  | '/' :: '/' :: line => String.ofList (dropCarriageReturn line)
  | '#' :: line => String.ofList (dropCarriageReturn line)
  | line => String.ofList (dropCarriageReturn line)

/-- The comments that an entity keeps: its text or the lines of its description. -/
def Entity.commentLines : Entity → List String
  | comment text => [text]
  | declared => (declared.description?.map lines).getD []

namespace Document

/-- Whether a place lies in a declaration. -/
def isDeclared (items : List Item) (place : Position) : Bool :=
  items.any fun item => !item.entity.isComment && item.span.contains place

/-- The comment tokens of a text that start outside of its declarations. -/
def looseComments (document : Document) (text : String) : List Token :=
  ((Token.placed .origin (Token.tokenize text)).filter fun entry =>
    !isDeclared document.items entry.1 && entry.2.kind = .comment).map Prod.snd

end Document

namespace Reader

/-!
## What is pending
-/

/-- The lines of a description are the comments that it was made of. -/
theorem commentLines_describe {entity : Entity} (declared : entity.isComment = false)
    {describing : List PendingComment} (oneLine : ∀ comment ∈ describing, comment.IsLine) :
    (entity.describe (descriptionOf describing)).commentLines
      = describing.reverse.map PendingComment.text := by
  have asLines : ((descriptionOf describing).map lines).getD []
      = describing.reverse.map PendingComment.text := by
    cases describing with
    | nil => rfl
    | cons comment earlier =>
      have nonempty : (comment :: earlier).reverse.map PendingComment.text ≠ [] := by simp
      have texts : ∀ text ∈ (comment :: earlier).reverse.map PendingComment.text,
          '\n' ∉ text.toList :=
        List.forall_mem_map.mpr fun comment member => oneLine comment (List.mem_reverse.mp member)
      exact lines_intercalate nonempty texts
  cases entity with
  | comment => cases declared
  | enumeration | dataType | method => exact asLines

/-!
## What is kept
-/

/-- What the comments outside of the declarations say. -/
def looseTexts (items : List Item) (comments : List (Position × List Char)) : List String :=
  (comments.filter fun comment => !Document.isDeclared items comment.1).map fun comment =>
    Token.commentText ⟨.comment, String.ofList comment.2⟩

theorem looseTexts_append (items : List Item) (first second : List (Position × List Char)) :
    looseTexts items (first ++ second) = looseTexts items first ++ looseTexts items second := by
  rw [looseTexts, List.filter_append, List.map_append]
  rfl

theorem isDeclared_append (first second : List Item) (place : Position) :
    Document.isDeclared (first ++ second) place
      = (Document.isDeclared first place || Document.isDeclared second place) :=
  List.any_append

theorem isDeclared_commentItems (comments : List PendingComment) (place : Position) :
    Document.isDeclared (commentItems comments) place = false := by
  rw [Document.isDeclared, List.any_eq_false]
  intro item member
  obtain ⟨comment, -, rfl⟩ := List.mem_map.mp member
  exact Bool.false_ne_true

theorem commentLines_commentItems (comments : List PendingComment) :
    (commentItems comments).flatMap (fun item => item.entity.commentLines)
      = comments.reverse.map PendingComment.text := by
  rw [commentItems, List.flatMap_map]
  exact List.map_eq_flatMap.symm

theorem isDeclared_of_before {items : List Item} {place : Position}
    (earlier : ∀ item ∈ items, item.entity.isComment = false → place.before item.span.start = true) :
    Document.isDeclared items place = false := by
  rw [Document.isDeclared, List.any_eq_false]
  intro item member
  cases isComment : item.entity.isComment with
  | true => exact Bool.false_ne_true
  | false =>
    rw [Span.not_contains_of_before (earlier item member isComment)]
    exact Bool.false_ne_true

/-- The pending comments and the comments outside of the declarations are in the items, one after the
other. -/
def KeepsComments (pending : Pending) (start : Cursor) (items : List Item) : Prop :=
  (∀ comment ∈ pending.comments, comment.IsLine) →
  items.flatMap (fun item => item.entity.commentLines)
      = pending.comments.reverse.map PendingComment.text ++ looseTexts items start.comments
    ∧ ∀ item ∈ items, item.entity.isComment = false → item.span.start.before start.place = false

theorem KeepsComments.of_landed {pending : Pending} {start : Cursor} {items : List Item}
    (keeps : KeepsComments pending start.landed items) : KeepsComments pending start items := by
  intro lines
  obtain ⟨same, behind⟩ := keeps lines
  have inert : ∀ c ∈ start.rest.takeWhile isBlank, Token.isInert c = true :=
    fun c member => Token.isInert_of_isBlank (List.all_eq_true.mp List.all_takeWhile c member)
  have whole := (List.takeWhile_append_dropWhile (p := isBlank) (l := start.rest)).symm
  have comments : start.landed.comments = start.comments := Cursor.comments_pass whole inert
  rw [comments] at same
  refine ⟨same, fun item member declared => ?_⟩
  exact Position.not_before_trans (Cursor.reaches_pass whole.symm).not_before
    (behind item member declared)

theorem keepsComments_end {pending : Pending} {start : Cursor} (ended : start.rest = []) :
    KeepsComments pending start (commentItems pending.comments) := by
  intro _
  refine ⟨?_, fun item member declared => ?_⟩
  · rw [commentLines_commentItems, Cursor.comments_of_end ended]
    exact (List.append_nil _).symm
  · obtain ⟨comment, -, rfl⟩ := List.mem_map.mp member
    cases declared

theorem commentText_of_mark (slashed : Bool) (body : List Char) :
    Token.commentText ⟨.comment, String.ofList (commentMark slashed ++ body)⟩ = rereadLine body := by
  rw [Token.commentText, String.toList_ofList]
  cases slashed <;> rfl

theorem KeepsComments.of_comment {pending : Pending} {start : Cursor} {items : List Item}
    (starts : startsComment start.rest = true) {slashed : Bool} {body : List Char}
    {comment : PendingComment}
    (taken : start.rest.takeWhile (· ≠ '\n') = commentMark slashed ++ body)
    (text : comment.text = rereadLine body) (line : comment.IsLine)
    (keeps : KeepsComments (pending.add comment) start.atLineEnd items) :
    KeepsComments pending start items := by
  intro lines
  obtain ⟨same, behind⟩ := keeps (List.forall_mem_cons.mpr ⟨line, lines⟩)
  have outside : Document.isDeclared items start.place = false :=
    isDeclared_of_before fun item member declared =>
      Position.before_of_before_of_not_before (Cursor.before_atLineEnd starts)
        (behind item member declared)
  refine ⟨?_, fun item member declared => ?_⟩
  · rw [same, Cursor.comments_of_startsComment starts, looseTexts, looseTexts,
      List.filter_cons_of_pos (by rw [outside]; rfl), List.map_cons, taken, commentText_of_mark, ← text,
      Pending.add, List.reverse_cons, List.map_append, List.append_assoc]
    rfl
  · exact Position.not_before_trans (Cursor.reaches_atLineEnd start).not_before
      (behind item member declared)

theorem KeepsComments.of_declaration {pending : Pending} {start after : Cursor} {entity : Entity}
    {items : List Item} (inStep : start.InStep after)
    (nonempty : start.place.before after.place = true) (declared : entity.isComment = false)
    (keeps : KeepsComments ⟨[], after.place.line⟩ after items) :
    KeepsComments pending start
      (commentItems (splitDescription start.place.line pending.comments).2
        ++ [⟨entity.describe
            (descriptionOf (splitDescription start.place.line pending.comments).1),
            ⟨start.place, after.place⟩⟩] ++ items) := by
  intro lines
  obtain ⟨same, behind⟩ := keeps (List.forall_mem_nil _)
  obtain ⟨reaches, passed, comments, between⟩ := inStep
  have parts := splitDescription_append start.place.line pending.comments
  generalize (splitDescription start.place.line pending.comments).1 = describing at parts ⊢
  generalize (splitDescription start.place.line pending.comments).2 = earlier at parts ⊢
  have describingLines : ∀ comment ∈ describing, comment.IsLine := fun comment member =>
    lines comment (parts ▸ List.mem_append_left _ member)
  generalize described : Item.mk (entity.describe (descriptionOf describing))
    ⟨start.place, after.place⟩ = item
  have texts : item.entity.commentLines = describing.reverse.map PendingComment.text := by
    rw [← described]
    exact commentLines_describe declared describingLines
  have isDeclaration : item.entity.isComment = false := by
    rw [← described, Entity.isComment_describe, declared]
  have split : ∀ place, Document.isDeclared (commentItems earlier ++ [item] ++ items) place
      = (item.span.contains place || Document.isDeclared items place) := by
    intro place
    rw [isDeclared_append, isDeclared_append, isDeclared_commentItems, Bool.false_or,
      Document.isDeclared, List.any_cons, List.any_nil, isDeclaration, Bool.or_false]
    rfl
  have hidden : looseTexts (commentItems earlier ++ [item] ++ items) passed = [] := by
    rw [looseTexts, List.filter_eq_nil_iff.mpr, List.map_nil]
    intro comment member
    obtain ⟨afterStart, beforeStop⟩ := between comment member
    have inside : item.span.contains comment.1 = true := by
      rw [← described]
      exact Span.contains_of_within afterStart beforeStop
    rw [split, inside]
    exact Bool.false_ne_true
  have shown : looseTexts (commentItems earlier ++ [item] ++ items) after.comments
      = looseTexts items after.comments := by
    rw [looseTexts, looseTexts, List.filter_congr]
    intro comment member
    have outside : item.span.contains comment.1 = false := by
      rw [← described]
      exact Span.not_contains_of_behind nonempty (Cursor.not_before_of_mem_comments member)
    rw [split, outside, Bool.false_or]
  refine ⟨?_, fun other member otherDeclared => ?_⟩
  · rw [comments, looseTexts_append, hidden, shown, List.flatMap_append, List.flatMap_append,
      commentLines_commentItems, List.flatMap_singleton, texts, same, ← parts, List.reverse_append,
      List.map_append]
    rfl
  · rw [List.append_assoc] at member
    rcases List.mem_append.mp member with inside | inside
    · obtain ⟨comment, -, rfl⟩ := List.mem_map.mp inside
      cases otherDeclared
    · rcases List.mem_cons.mp inside with rfl | inside
      · rw [← described]
        exact Position.before_self _
      · exact Position.not_before_trans reaches.not_before (behind other inside otherDeclared)

/-!
## Documents
-/

theorem ensures_declaration_inStep (grammar : Grammar) (start : Cursor) :
    (declaration grammar).Ensures start fun entity after _ =>
      start.InStep after ∧ start.place.before after.place = true ∧ entity.isComment = false := by
  intro entity after asked ran
  have shorter := advances_declaration grammar _ _ _ _ ran trivial
  exact ⟨keepsStep_declaration grammar start _ _ _ ran,
    ((declaration grammar).forward ran).before shorter,
    ensures_declaration_declares grammar start _ _ _ ran⟩

theorem documentStep_keepsComments {grammar : Grammar} {pending : Pending} {start after : Cursor}
    {result : Round Pending Item} {asked : List Question}
    (step : DocumentStep grammar pending start.landed result after asked) :
    result.Leads (fun pending start items _ => KeepsComments pending start items)
      pending start after := by
  cases step with
  | ended rest => exact (keepsComments_end rest).of_landed
  | comment starts taken facts line _ =>
    intro items last keeps
    exact (KeepsComments.of_comment starts taken facts.text line keeps).of_landed
  | declaration _ _ ran =>
    obtain ⟨inStep, nonempty, declared⟩ := ensures_declaration_inStep grammar _ _ _ _ ran
    intro items last keeps
    exact (KeepsComments.of_declaration inStep nonempty declared keeps).of_landed

theorem keepsComments_document (grammar : Grammar) (start : Cursor) :
    (document grammar).Ensures start fun items _ _ => KeepsComments ⟨[], 0⟩ start items :=
  ensures_document_leads (fun _ _ _ _ _ => documentStep_keepsComments) start

end Reader

namespace Document

variable {patternFault? : String → Option String} {options : Options} {text : String} {document : Document}

/-- The comments outside of the declarations of a text are, one after the other, the comments among the
entities and the lines of the descriptions. -/
theorem commentTexts_looseComments (accepted : readWith patternFault? options text = .ok document) :
    (document.looseComments text).map Token.commentText
      = document.entities.flatMap Entity.commentLines := by
  obtain ⟨after, asked, read, -⟩ := readWith_eq_ok accepted
  have keeps := Reader.keepsComments_document options.grammar (.start text) _ _ _ read
  obtain ⟨same, -⟩ := keeps (List.forall_mem_nil _)
  have loose : (document.looseComments text).map Token.commentText
      = Reader.looseTexts document.items (Cursor.start text).comments := by
    rw [looseComments, ← List.filter_filter, Token.tokenize, Token.comments_placed_classify,
      List.filter_map, List.map_map, List.map_map]
    rfl
  rw [loose, entities, List.flatMap_map]
  exact same.symm

/-- Comments stand in front of a declaration, in it, behind it and at the end; one line in it looks like
a comment and is none. -/
def commentedText : String :=
  "// one\n#two\n// a\r\n//b\nBox \x7b // in\n url: string = \"http://x#y\" // in\n\x7d // behind\n"
    ++ "enum Kind \x7b A \x7d # last\n//end"

theorem commentTexts_looseComments_commentedText :
    ∃ document, readWith (fun _ => none) .permissive commentedText = .ok document
      ∧ (document.looseComments commentedText).map Token.commentText
        = document.entities.flatMap Entity.commentLines
      ∧ document.entities.flatMap Entity.commentLines
        = [" one", "two", " a", "b", " behind", " last", "end"] := by
  have cleanly : readsCleanly (fun _ => none) .permissive
      (fun entities => entities.flatMap Entity.commentLines
        = [" one", "two", " a", "b", " behind", " last", "end"]) commentedText.toList = true := by
    decide +kernel
  obtain ⟨document, accepted, kept⟩ := exists_of_readsCleanly _ cleanly
  rw [String.ofList_toList] at accepted
  exact ⟨document, accepted, commentTexts_looseComments accepted, of_decide_eq_true kept⟩

end Document

end ApiDef
