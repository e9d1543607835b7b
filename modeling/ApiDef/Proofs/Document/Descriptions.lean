import ApiDef.Proofs.Document.Findings
import ApiDef.Proofs.Reader.DocumentStep
import ApiDef.Proofs.Reader.PendingLines
set_option autoImplicit false

/-!
# Where descriptions come from

Every declaration and every property, however deep, has the description that the lines of its gap give
it. The gap is what stands between it and the piece of code in front of it: the text's start, the
declaration or property before with its separator, or the brace that opens the body.
-/

namespace ApiDef

open Text

namespace Reader

/-!
## The rule
-/

/-- The separator behind a property and the blanks in front of it, if there is one. -/
def separator? : Reader (Option Unit) :=
  attempt do
    skipBlanks
    if ← eatSeparator then pure (some ()) else pure none

/-- What stands in front of the body of an inline property, up to its brace. -/
def inlineOpening : Reader Unit := do
  let _ ← tags
  let _ ← identifier [.mark "@", .closeBrace]
  skipBlanks
  require ':'
  skipBlanks
  if ← eat '{' then pure ()
  else
    require '['
    skipBlanks
    require '{'

/-- What stands in front of the body of a data type, up to its brace. -/
def bodyOpening : Reader Unit := do
  let _ ← tags
  let _ ← identifier [.mark "@", .mark "enum"]
  skipTrivia
  require '{'

/-- The properties of a body behind the piece of code that `code` stands behind. Each of them starts
where a gap ends, and its description is what the lines of the gap say. -/
inductive DescribedBody (lines : List String) (limit : Nat) : Nat → Cursor → List Property → Prop
  | closed {levels : Nat} {code stop : Cursor}
      (gap : skipTrivia.Reads code () stop) (closes : stop.rest.head? = some '}') :
      DescribedBody lines limit levels code []
  | plain {levels : Nat} {code start stop next : Cursor} {field : Field} {found : Option Unit}
      {others : List Property}
      (gap : skipTrivia.Reads code () start)
      (read : (property (typeRef limit (levels + 1)) fun _ => body limit levels).Reads start
        (.plain field) stop)
      (separated : separator?.Reads stop found next)
      (later : DescribedBody lines limit (levels + 1) next others) :
      DescribedBody lines limit (levels + 1) code
        (.plain { field with
          description := gapDescription lines code.place.line start.place.line } :: others)
  | inline {levels : Nat} {code start opening stop next : Cursor} {field : Field}
      {found : Option Unit} {properties others : List Property}
      (gap : skipTrivia.Reads code () start)
      (read : (property (typeRef limit (levels + 1)) fun _ => body limit levels).Reads start
        (.inline field properties) stop)
      (opens : inlineOpening.Reads start () opening)
      (inside : DescribedBody lines limit levels opening properties)
      (separated : separator?.Reads stop found next)
      (later : DescribedBody lines limit (levels + 1) next others) :
      DescribedBody lines limit (levels + 1) code
        (.inline { field with
          description := gapDescription lines code.place.line start.place.line } properties :: others)

/-- The items that are no comments. -/
def declarations (items : List Item) : List Item :=
  items.filter fun item => !item.entity.isComment

/-- The declarations of a text behind the piece of code that `code` stands behind and that ends on
`codeLine`; no code ends on line zero. -/
inductive DescribedItems (lines : List String) (grammar : Grammar) :
    Nat → Cursor → List Item → Prop
  | ended {codeLine : Nat} {code stop : Cursor}
      (gap : skipTrivia.Reads code () stop) (ends : stop.rest = []) :
      DescribedItems lines grammar codeLine code []
  | declaration {codeLine : Nat} {code start stop : Cursor} {entity : Entity} {others : List Item}
      (gap : skipTrivia.Reads code () start)
      (read : (declaration grammar).Reads start entity stop)
      (inside : ∀ declared, entity = .dataType declared →
        ∃ opening, bodyOpening.Reads start () opening
          ∧ DescribedBody lines grammar.maxNestingDepth grammar.maxNestingDepth opening
            declared.properties)
      (later : DescribedItems lines grammar stop.place.line stop others) :
      DescribedItems lines grammar codeLine code
        (⟨entity.describe (gapDescription lines codeLine start.place.line),
          ⟨start.place, stop.place⟩⟩ :: others)

/-!
## Openings
-/

/-- The body of an inline property was read behind its opening. -/
theorem exists_inlineOpening {types : Advancing TypeRef} {inner : Unit → Reader (List Property)}
    {start stop : Cursor} {field : Field} {properties : List Property}
    (read : (property types inner).Reads start (.inline field properties) stop) :
    ∃ opening closing, inlineOpening.Reads start () opening
      ∧ (inner ()).Reads opening properties closing := by
  obtain ⟨tags, afterTags, readTags, read⟩ := reads_bind_iff.mp read
  obtain ⟨name, afterName, readName, read⟩ := reads_bind_iff.mp (reads_ask_bind.mp read)
  obtain ⟨_, beforeColon, blanks, read⟩ := reads_bind_iff.mp read
  obtain ⟨_, afterColon, colon, read⟩ := reads_bind_iff.mp read
  obtain ⟨_, beforeShape, moreBlanks, read⟩ := reads_bind_iff.mp read
  obtain ⟨⟨type, found⟩, afterShape, shape, read⟩ := reads_bind_iff.mp read
  obtain ⟨defaultValue, afterDefault, -, read⟩ := reads_bind_iff.mp read
  obtain rfl : found = some properties := by
    obtain ⟨same, -⟩ := reads_pure_iff.mp read
    cases found with
    | none => cases same
    | some found => exact congrArg some (Property.inline.inj same).2.symm
  have opening : ∀ {afterBrace : Cursor},
      (do
        if ← eat '{' then pure ()
        else
          require '['
          skipBlanks
          require '{' : Reader Unit).Reads beforeShape () afterBrace →
      inlineOpening.Reads start () afterBrace := by
    intro afterBrace opens
    exact reads_bind_iff.mpr ⟨_, _, readTags, reads_bind_iff.mpr ⟨_, _, readName,
      reads_bind_iff.mpr ⟨_, _, blanks, reads_bind_iff.mpr ⟨_, _, colon,
        reads_bind_iff.mpr ⟨_, _, moreBlanks, opens⟩⟩⟩⟩⟩
  obtain ⟨isObject, afterEat, eaten, shape⟩ := reads_bind_iff.mp shape
  cases isObject with
  | true =>
    obtain ⟨inside, closing, readInside, shape⟩ := reads_bind_iff.mp shape
    obtain ⟨same, -⟩ := reads_pure_iff.mp shape
    obtain rfl := Option.some.inj (Prod.mk.inj same).2
    exact ⟨afterEat, closing, opening (reads_bind_iff.mpr ⟨_, _, eaten, reads_pure_iff.mpr ⟨rfl, rfl⟩⟩),
      readInside⟩
  | false =>
    obtain ⟨isList, afterMark, mark, shape⟩ := reads_bind_iff.mp shape
    cases isList with
    | true =>
      obtain ⟨_, beforeBrace, blanks, shape⟩ := reads_bind_iff.mp shape
      obtain ⟨_, afterBrace, brace, shape⟩ := reads_bind_iff.mp shape
      obtain ⟨inside, closing, readInside, shape⟩ := reads_bind_iff.mp shape
      obtain ⟨_, _, _, shape⟩ := reads_bind_iff.mp shape
      obtain ⟨_, _, _, shape⟩ := reads_bind_iff.mp shape
      obtain ⟨same, -⟩ := reads_pure_iff.mp shape
      obtain rfl := Option.some.inj (Prod.mk.inj same).2
      have required : (require '[').Reads afterEat () afterMark :=
        reads_bind_iff.mpr ⟨_, _, mark, reads_pure_iff.mpr ⟨rfl, rfl⟩⟩
      exact ⟨afterBrace, closing, opening (reads_bind_iff.mpr ⟨_, _, eaten,
        reads_bind_iff.mpr ⟨_, _, required, reads_bind_iff.mpr ⟨_, _, blanks, brace⟩⟩⟩), readInside⟩
    | false =>
      obtain ⟨_, _, _, shape⟩ := reads_bind_iff.mp shape
      obtain ⟨_, _, _, shape⟩ := reads_bind_iff.mp shape
      obtain ⟨same, -⟩ := reads_pure_iff.mp shape
      cases (Prod.mk.inj same).2

/-- The body of a data type was read behind its opening. -/
theorem exists_bodyOpening {grammar : Grammar} {start stop : Cursor} {declared : DataType}
    (read : (declaration grammar).Reads start (.dataType declared) stop) :
    ∃ opening closing, bodyOpening.Reads start () opening
      ∧ (body grammar.maxNestingDepth grammar.maxNestingDepth).Reads opening declared.properties
        closing := by
  obtain ⟨tags, afterTags, readTags, read⟩ := reads_bind_iff.mp read
  rw [reads_look_bind] at read
  split at read
  next =>
    unfold keywordDeclaration at read
    split at read
    · obtain ⟨_, _, _, read⟩ := reads_bind_iff.mp read
      obtain ⟨_, _, _, read⟩ := reads_bind_iff.mp (reads_ask_bind.mp read)
      cases (reads_pure_iff.mp read).1
    · exact absurd read (not_reads_of_failed rfl)
  next =>
    obtain ⟨⟨name, namePlace⟩, afterName, readName, read⟩ := reads_bind_iff.mp read
    obtain ⟨_, beforeBrace, trivia, read⟩ := reads_bind_iff.mp read
    rw [lookingAt, reads_look_bind] at read
    split at read
    next =>
      split at read
      next =>
        have asked := reads_ask_bind.mp (reads_ask_bind.mp read)
        obtain ⟨_, opening, brace, read⟩ := reads_bind_iff.mp asked
        obtain ⟨properties, closing, readBody, read⟩ := reads_bind_iff.mp read
        obtain ⟨same, -⟩ := reads_pure_iff.mp read
        obtain rfl := Entity.dataType.inj same
        refine ⟨opening, closing, ?_, readBody⟩
        refine reads_bind_iff.mpr ⟨_, _, readTags, reads_bind_iff.mpr ⟨name, afterName, ?_,
          reads_bind_iff.mpr ⟨_, _, trivia, brace⟩⟩⟩
        exact reads_of_spanned readName
      next => exact absurd read (not_reads_of_failed rfl)
    next =>
      rw [lookingAt, reads_look_bind] at read
      split at read
      next =>
        split at read
        next =>
          obtain ⟨_, _, _, read⟩ := reads_bind_iff.mp read
          obtain ⟨_, _, _, read⟩ := reads_bind_iff.mp read
          cases (reads_pure_iff.mp read).1
        next => exact absurd read (not_reads_of_failed rfl)
      next => exact absurd read (not_reads_of_failed rfl)

/-!
## Bodies
-/

theorem reads_separator?_of_eaten {stop next : Cursor}
    (eaten : eatSeparator.Reads stop.landed true next) : separator?.Reads stop (some ()) next := by
  apply reads_attempt_some
  exact reads_bind_iff.mpr ⟨_, _, reads_skipBlanks stop,
    reads_bind_iff.mpr ⟨_, _, eaten, reads_pure_iff.mpr ⟨rfl, rfl⟩⟩⟩

theorem reads_separator?_of_missing {stop next : Cursor}
    (missing : eatSeparator.Reads stop.landed false next) :
    next = stop.landed ∧ separator?.Reads stop none stop := by
  constructor
  · obtain ⟨isComma, afterComma, comma, semicolon⟩ := reads_bind_iff.mp missing
    cases isComma with
    | true => cases (reads_pure_iff.mp semicolon).1
    | false =>
      obtain rfl := eq_of_reads_eat_false comma
      exact eq_of_reads_eat_false semicolon
  · apply reads_attempt_none
    exact reads_bind_iff.mpr ⟨_, _, reads_skipBlanks stop,
      reads_bind_iff.mpr ⟨_, _, missing, reads_pure_iff.mpr ⟨rfl, rfl⟩⟩⟩

variable {lines : List String}

/-- From here on the body is described, if the comments of the gap so far are pending. -/
def LeadsToBody (lines : List String) (limit levels : Nat) (pending : Pending) (here : Cursor)
    (properties : List Property) : Prop :=
  ∀ code : Cursor, skipTrivia.run here = skipTrivia.run code → code.place.line = pending.lastCodeLine →
    pending.ReadyAt lines here → DescribedBody lines limit levels code properties

/-- The next piece of code starts where the blanks end. -/
theorem reads_gap {here code : Cursor} (sameGap : skipTrivia.run here = skipTrivia.run code)
    (noComment : startsComment here.landed.rest = false) : skipTrivia.Reads code () here.landed := by
  obtain ⟨asked, ran⟩ := reads_skipTrivia_of_code noComment
  exact ⟨asked, sameGap ▸ ran⟩

theorem leadsToBody_comment {limit levels : Nat} {pending : Pending} {here : Cursor}
    {properties : List Property} (starts : startsComment here.landed.rest = true) {slashed : Bool}
    {body : List Char} {comment : PendingComment}
    (taken : here.landed.rest.takeWhile (· ≠ '\n') = commentMark slashed ++ body)
    (facts : CommentFacts here.landed.place.line pending.lastCodeLine slashed body comment)
    (leads : LeadsToBody lines limit levels (pending.add comment) here.landed.atLineEnd properties) :
    LeadsToBody lines limit levels pending here properties := by
  intro code sameGap codeLine ready
  have goesOn : here.landed.rest ≠ [] := by
    intro none
    rw [none] at starts
    cases starts
  refine leads code ?_ codeLine ((ready goesOn).add taken facts)
  rw [run_skipTrivia_comment starts, sameGap]

theorem leadsToBody_property {limit levels : Nat} {pending : Pending} {here stop next after : Cursor}
    {property : Property} {found : Option Unit} {others : List Property}
    (noComment : startsComment here.landed.rest = false) (goesOn : here.landed.rest ≠ [])
    (read : (Reader.property (typeRef limit (levels + 1)) fun _ => body limit levels).Reads here.landed
      property stop)
    (bodies : ∀ start above before, start.OnLine lines above before →
      (body limit levels).Ensures start fun properties _ _ =>
        DescribedBody lines limit levels start properties)
    (separated : separator?.Reads stop found next)
    (sameGap : skipTrivia.run after = skipTrivia.run next)
    (leads : LeadsToBody lines limit (levels + 1) ⟨[], next.place.line⟩ after others)
    (again : (⟨[], next.place.line⟩ : Pending).ReadyAt lines after) :
    LeadsToBody lines limit (levels + 1) pending here
      (property.mapField (fun field => { field with
          description :=
            descriptionOf (splitDescription here.landed.place.line pending.comments).1 }) :: others) := by
  intro code codeGap codeLine ready
  have collected := ready goesOn
  have gap := reads_gap codeGap noComment
  have later := leads next sameGap rfl again
  rw [collected.descriptionOf_split, ← codeLine]
  cases property with
  | plain field => exact .plain gap read separated later
  | inline field properties =>
    obtain ⟨opening, closing, opens, asked, inside⟩ := exists_inlineOpening read
    obtain ⟨above, before, on, -⟩ := collected
    obtain ⟨above, before, onOpening⟩ := on.of_reaches opens.reaches
    exact .inline gap read opens (bodies opening above before onOpening _ _ _ inside) separated later

theorem leads_propertyRound {limit levels : Nat}
    (bodies : ∀ start above before, start.OnLine lines above before →
      (body limit levels).Ensures start fun properties _ _ =>
        DescribedBody lines limit levels start properties)
    (pending : Pending) (start : Cursor) :
    (propertyRound (typeRef limit (levels + 1)) (fun _ => body limit levels) pending).Ensures start
      fun result after _ => result.Leads
        (fun pending here properties _ => LeadsToBody lines limit (levels + 1) pending here properties)
        pending start after := by
  refine ensures_after (run_skipBlanks_landed start) ?_
  cases starts : startsComment start.landed.rest with
  | true =>
    obtain ⟨slashed, text, comment, taken, read, facts⟩ :=
      exists_run_comment? pending.lastCodeLine starts
    refine ensures_after read (ensures_pure fun properties last leads => ?_)
    exact leadsToBody_comment starts taken facts leads
  | false =>
    refine ensures_after (run_comment?_none _ starts) ?_
    by_cases closes : start.landed.rest.head? = some '}'
    · obtain ⟨others, rest⟩ := List.head?_eq_some_iff.mp closes
      refine ensures_after (run_eat rest) (ensures_pure fun code sameGap _ _ => ?_)
      exact .closed (reads_gap sameGap starts) closes
    · refine ensures_after (run_eat_other closes) (ensures_after (run_look _ _) ?_)
      split
      next startsProperty =>
        have goesOn : start.landed.rest ≠ [] := by
          intro none
          rw [none] at startsProperty
          cases startsProperty
        refine ensures_after (run_here _) ((ensures_reads _ _).bind fun property stop _ read => ?_)
        refine ensures_after (run_here _) (ensures_after (run_skipBlanks_landed stop) ?_)
        refine (ensures_reads _ _).bind fun separated after _ separator => ?_
        refine ensures_after (run_here _) (ensures_pure fun others last leads => ?_)
        intro code sameGap codeLine ready
        obtain ⟨above, before, on, -⟩ := ready goesOn
        cases separated with
        | true =>
          have reaches : start.landed.Reaches after :=
            read.reaches.trans ((reads_skipBlanks stop).reaches.trans separator.reaches)
          exact leadsToBody_property starts goesOn read bodies (reads_separator?_of_eaten separator)
            rfl leads (collectedAt_code on reaches).ready code sameGap codeLine ready
        | false =>
          obtain ⟨rfl, separated⟩ := reads_separator?_of_missing separator
          exact leadsToBody_property starts goesOn read bodies separated (run_skipTrivia_landed stop)
            leads (collectedAt_code on read.reaches).landed.ready code sameGap codeLine ready
      next => exact ensures_unexpected

/-- The properties of a body have the descriptions that the lines of their gaps give them. -/
theorem describedBody_body (limit levels : Nat) :
    ∀ start above before, start.OnLine lines above before →
      (body limit levels).Ensures start fun properties _ _ =>
        DescribedBody lines limit levels start properties := by
  induction levels with
  | zero => exact fun _ _ _ _ => ensures_fail
  | succ levels ih =>
    intro start above before on
    have collected : (⟨[], start.place.line⟩ : Pending).CollectedAt lines start :=
      collectedAt_code on (.refl start)
    refine ensures_after (run_here start) ?_
    refine (ensures_rounds_leads (leads_propertyRound ih) _ _).mono fun properties _ _ leads => ?_
    exact leads start rfl rfl collected.ready

/-!
## Declarations
-/

theorem declarations_commentItems (comments : List PendingComment) :
    declarations (commentItems comments) = [] := by
  rw [declarations, List.filter_eq_nil_iff]
  intro item member
  obtain ⟨comment, -, rfl⟩ := List.mem_map.mp member
  exact Bool.false_ne_true

/-- From here on the declarations are described, if the comments of the gap so far are pending. -/
def LeadsToItems (lines : List String) (grammar : Grammar) (pending : Pending) (here : Cursor)
    (items : List Item) : Prop :=
  ∀ code : Cursor, skipTrivia.run here = skipTrivia.run code → pending.ReadyAt lines here →
    DescribedItems lines grammar pending.lastCodeLine code (declarations items)

theorem leadsToItems_declaration {grammar : Grammar} {pending : Pending} {here stop : Cursor}
    {entity : Entity} {items : List Item} (noComment : startsComment here.landed.rest = false)
    (goesOn : here.landed.rest ≠ []) (declared : entity.isComment = false)
    (read : (declaration grammar).Reads here.landed entity stop)
    (leads : LeadsToItems lines grammar ⟨[], stop.place.line⟩ stop items) :
    LeadsToItems lines grammar pending here
      (commentItems (splitDescription here.landed.place.line pending.comments).2
        ++ [⟨entity.describe
            (descriptionOf (splitDescription here.landed.place.line pending.comments).1),
            ⟨here.landed.place, stop.place⟩⟩] ++ items) := by
  intro code sameGap ready
  have collected := ready goesOn
  obtain ⟨above, before, on, -⟩ := id collected
  have later := leads stop rfl (collectedAt_code on read.reaches).ready
  have isDeclaration : (entity.describe (gapDescription lines pending.lastCodeLine
      here.landed.place.line)).isComment = false := by
    rw [Entity.isComment_describe, declared]
  rw [collected.descriptionOf_split, declarations, List.filter_append, List.filter_append,
    ← declarations, declarations_commentItems, List.nil_append,
    List.filter_cons_of_pos (by rw [isDeclaration]; rfl), List.filter_nil]
  refine .declaration (reads_gap sameGap noComment) read ?_ later
  rintro declared rfl
  obtain ⟨opening, closing, opens, asked, inside⟩ := exists_bodyOpening read
  obtain ⟨above, before, onOpening⟩ := on.of_reaches opens.reaches
  exact ⟨opening, opens, describedBody_body _ _ opening above before onOpening _ _ _ inside⟩

theorem documentStep_leadsToItems {grammar : Grammar} {pending : Pending} {start after : Cursor}
    {result : Round Pending Item} {asked : List Question}
    (step : DocumentStep grammar pending start.landed result after asked) :
    result.Leads (fun pending here items _ => LeadsToItems lines grammar pending here items)
      pending start after := by
  cases step with
  | ended rest =>
    intro code sameGap _
    rw [declarations_commentItems]
    exact .ended (reads_gap sameGap (by rw [rest]; rfl)) rest
  | comment starts taken facts _ _ =>
    have goesOn : start.landed.rest ≠ [] := by
      obtain ⟨c, cs, rest, -⟩ := exists_of_startsComment starts
      rw [rest]
      exact List.cons_ne_nil c cs
    intro items last leads code sameGap ready
    apply leads code
    · rw [run_skipTrivia_comment starts, sameGap]
    · exact (ready goesOn).add taken facts
  | declaration noComment starts ran =>
    have declared := ensures_declaration_declares grammar _ _ _ _ ran
    intro items last leads
    exact leadsToItems_declaration noComment (ne_nil_of_startsDeclaration starts) declared ⟨_, ran⟩ leads

theorem leadsToItems_document (grammar : Grammar) (start : Cursor) :
    (document grammar).Ensures start fun items _ _ => LeadsToItems lines grammar ⟨[], 0⟩ start items :=
  ensures_document_leads (fun _ _ _ _ _ => documentStep_leadsToItems) start

end Reader

namespace Document

variable {patternFault? : String → Option String} {options : Options} {text : String} {document : Document}

/-- The declarations of a document and their properties, at every depth, have the descriptions that the
lines of their gaps give them. -/
theorem describedItems_of_read (accepted : readWith patternFault? options text = .ok document) :
    Reader.DescribedItems (lines text) options.grammar 0 (.start text)
      (Reader.declarations document.items) := by
  obtain ⟨after, asked, read, -⟩ := readWith_eq_ok accepted
  exact Reader.leadsToItems_document options.grammar (.start text) _ _ _ read (.start text) rfl
    (Reader.collectedAt_start text).ready

/-- A run of comments broken by a blank line, comments behind code on its line, a separator on a line of
its own, and two declarations on one line. -/
def describedText : String :=
  "// far\n\n  // a\r\n//b\nBox \x7b // in\n // x\n x: \x7b\n//y\ny: Box\n , // z\n"
    ++ "//u\n# v\nw: Box\x7d\x7d enum A \x7b\x7d"

def describedEntities : List Entity :=
  [.comment " far",
    .dataType ⟨"Box", some " a\nb", [], [.inline ⟨"x", .simple TypeRef.objectName, some " x", none, []⟩
      [.plain ⟨"y", .simple "Box", some "y", none, []⟩,
        .plain ⟨"w", .simple "Box", none, none, []⟩]]⟩,
    .enumeration ⟨"A", none, [], []⟩]

theorem describedItems_of_read_describedText :
    ∃ document, readWith (fun _ => none) .permissive describedText = .ok document
      ∧ document.entities = describedEntities
      ∧ Reader.DescribedItems (lines describedText) Options.permissive.grammar 0 (.start describedText)
        (Reader.declarations document.items) := by
  have cleanly : readsCleanly (fun _ => none) .permissive
      (fun entities => entities = describedEntities) describedText.toList = true := by
    decide +kernel
  obtain ⟨document, accepted, same⟩ := exists_of_readsCleanly _ cleanly
  rw [String.ofList_toList] at accepted
  exact ⟨document, accepted, of_decide_eq_true same, describedItems_of_read accepted⟩

end Document

end ApiDef
