import ApiDef.Proofs.Document.Located
import ApiDef.Proofs.Reader.ItemsInOrder
set_option autoImplicit false

/-!
# Exact spans

The span of an item covers what the item was read from and nothing else: spans do not meet, what a span
covers gives the item back, and whatever is found about a declaration is found inside its span.
-/

namespace ApiDef

open Text

/-!
## Owners
-/

/-- Each value has an owner among the items, and the owners stand in the order of the items: the first
values are owned by the first item, and the others by later ones. -/
def OwnedInOrder {α : Type} (owns : Item → α → Prop) : List Item → List α → Prop
  | [], values => values = []
  | item :: items, values => ∃ own others, values = own ++ others ∧ (∀ value ∈ own, owns item value)
    ∧ OwnedInOrder owns items others

namespace OwnedInOrder

variable {α : Type} {owns : Item → α → Prop}

theorem nothing (items : List Item) : OwnedInOrder owns items [] := by
  induction items with
  | nil => rfl
  | cons item items ih => exact ⟨[], [], rfl, List.forall_mem_nil _, ih⟩

theorem append {items others : List Item} {values later : List α} (here : OwnedInOrder owns items values)
    (there : OwnedInOrder owns others later) : OwnedInOrder owns (items ++ others) (values ++ later) := by
  induction items generalizing values with
  | nil =>
    cases here
    exact there
  | cons item items ih =>
    obtain ⟨own, rest, rfl, owned, following⟩ := here
    exact ⟨own, rest ++ later, List.append_assoc _ _ _, owned, ih following⟩

end OwnedInOrder

/-- A place lies in a declaration. -/
def Item.DeclaresAt (item : Item) (place : Span) : Prop :=
  item.entity.isComment = false ∧ place.LiesWithin item.span

theorem Cursor.Encloses.liesWithin {first last : Cursor} {place : Span}
    (encloses : first.Encloses last place) : place.LiesWithin ⟨first.place, last.place⟩ := by
  obtain ⟨left, right, toLeft, between, toLast, rfl⟩ := encloses
  constructor
  · exact toLeft.not_before
  · exact toLast.not_before

namespace Question

variable (patternFault? : String → Option String) (options : Options)

/-- All places that a question is about lie in a declaration. -/
def AskedOf (item : Item) (question : Question) : Prop :=
  ∀ place ∈ question.places, item.DeclaresAt place

theorem findingsOfAll_append (table : TypeTable) (first second : List Question) :
    ∃ further, findingsOfAll patternFault? options table (first ++ second)
      = findingsOfAll patternFault? options table first
        ++ findingsOfAll patternFault? options further second := by
  induction first generalizing table with
  | nil => exact ⟨table, rfl⟩
  | cons question others ih =>
    obtain ⟨further, same⟩ := ih (question.tableAfter table)
    refine ⟨further, ?_⟩
    rw [List.cons_append, findingsOfAll, same, findingsOfAll, List.append_assoc]

/-- A finding belongs to the declaration that its question was asked of. -/
theorem owned_findingsOfAll {items : List Item} {asked : List Question}
    (owned : OwnedInOrder AskedOf items asked) (table : TypeTable) :
    OwnedInOrder (fun item (finding : Finding) => item.DeclaresAt finding.place) items
      (findingsOfAll patternFault? options table asked) := by
  induction items generalizing asked table with
  | nil =>
    cases owned
    rfl
  | cons item items ih =>
    obtain ⟨own, others, rfl, askedOf, following⟩ := owned
    obtain ⟨further, same⟩ := findingsOfAll_append patternFault? options table own others
    refine ⟨_, _, same, ?_, ih following further⟩
    intro finding member
    obtain ⟨question, inOwn, place⟩ := exists_question_of_finding member
    exact askedOf question inOwn finding.place place

end Question

namespace Reader

/-- Whatever a declaration asks it asks about places in its span. -/
theorem documentStep_owned {grammar : Grammar} {pending : Pending} {start after : Cursor}
    {result : Round Pending Item} {asked : List Question}
    (step : DocumentStep grammar pending start result after asked) :
    result.Meets (fun _ => True) (OwnedInOrder Question.AskedOf · asked) := by
  cases step with
  | ended => exact OwnedInOrder.nothing _
  | comment => exact ⟨OwnedInOrder.nothing [], trivial⟩
  | @declaration entity _ _ _ _ ran =>
    have declares := ensures_declaration_declares grammar start _ _ _ ran
    have located := isLocated_declaration grammar start start (.refl start)
    rw [Locates, ran] at located
    have owns : ∀ description, ∀ question ∈ asked,
        Question.AskedOf ⟨entity.describe description, ⟨start.place, after.place⟩⟩ question := by
      intro description question member place inside
      constructor
      · rw [Entity.isComment_describe, declares]
      · exact (located.2 question member place inside).liesWithin
    constructor
    · apply (OwnedInOrder.nothing (commentItems _)).append
      exact ⟨asked, [], (List.append_nil asked).symm, owns _, rfl⟩
    · trivial

theorem ensures_document_owned (grammar : Grammar) (start : Cursor) :
    (document grammar).Ensures start fun items _ asked => OwnedInOrder Question.AskedOf items asked := by
  apply ensures_rounds (fun _ => True) (OwnedInOrder Question.AskedOf)
  · exact fun _ _ _ _ here there => here.append there
  · intro pending start _ result after asked ran
    exact documentStep_owned (ensures_documentRound grammar pending start _ _ _ ran)
  · trivial

end Reader

/-!
## Documents
-/

namespace Document

variable {patternFault? : String → Option String} {options : Options} {text : String} {document : Document}

/-- Looking for the entity at a place finds none if no span holds the place, and otherwise the entity of
the only span that does. -/
def FindsOnlyOne (document : Document) (place : Position) : Prop :=
  (document.entityAt? place = none ∧ ∀ item ∈ document.items, item.span.contains place = false)
    ∨ ∃ earlier item later, document.items = earlier ++ item :: later
      ∧ item.span.contains place = true ∧ document.entityAt? place = some item.entity
      ∧ ∀ other ∈ earlier ++ later, other.span.contains place = false

theorem not_contains_of_precedes {first second : Span} {place : Position} (precedes : first.Precedes second)
    (nonempty : first.start.before first.stop = true) (inside : first.contains place = true) :
    second.contains place = false := by
  cases behind : place.before first.stop with
  | true =>
    apply Span.not_contains_of_before
    exact Position.before_of_before_of_not_before behind precedes.2
  | false =>
    rw [Span.not_contains_of_behind nonempty behind] at inside
    cases inside

theorem findsOnlyOne (ordered : document.spans.Pairwise Span.Precedes)
    (nonempty : ∀ span ∈ document.spans, span.start.before span.stop = true) (place : Position) :
    document.FindsOnlyOne place := by
  cases found : document.items.find? fun item => item.span.contains place with
  | none =>
    left
    constructor
    · rw [entityAt?, found]
      rfl
    · intro item member
      simpa using List.find?_eq_none.mp found item member
  | some item =>
    obtain ⟨inside, earlier, later, whole, others⟩ := List.find?_eq_some_iff_append.mp found
    refine .inr ⟨earlier, item, later, whole, inside, ?_, ?_⟩
    · rw [entityAt?, found]
      rfl
    · intro other member
      rcases List.mem_append.mp member with before | behind
      · simpa using others other before
      · rw [spans, whole, List.map_append, List.map_cons] at ordered
        have precedes := List.rel_of_pairwise_cons (List.pairwise_append.mp ordered).2.1
          (List.mem_map_of_mem behind)
        have inItems : item ∈ document.items := by
          rw [whole]
          exact List.mem_append_right _ List.mem_cons_self
        exact not_contains_of_precedes precedes (nonempty _ (List.mem_map_of_mem inItems)) inside

/-- The spans of a document tell exactly where its entities are. -/
structure HasExactSpans (patternFault? : String → Option String) (options : Options) (text : String)
    (document : Document) : Prop where
  oneEach : document.spans.length = document.entities.length
  nonempty : ∀ span ∈ document.spans, span.start.before span.stop = true
  increasing : document.spans.Pairwise Span.Precedes
  disjoint : document.spans.Pairwise fun first second =>
    ∀ place, ¬(first.contains place = true ∧ second.contains place = true)
  findsOnlyOne : ∀ place, document.FindsOnlyOne place
  /-- What a span covers, read alone and softly, gives its entity without the description. -/
  alone : ∀ item ∈ document.items, ∃ reread,
    readWith patternFault? { options with softErrors := true } (item.span.slice text) = .ok reread
      ∧ reread.entities = [item.entity.describe none]
  owned : OwnedInOrder (fun item (finding : Finding) => item.DeclaresAt finding.place) document.items
    document.findings

/-- The slice of an item is read as a document of its own. -/
theorem exists_read_slice {item : Item} {start stop : Cursor}
    (reached : (Cursor.start text).Reaches start) (read : item.ReadFrom options.grammar start stop) :
    ∃ reread, readWith patternFault? { options with softErrors := true } (item.span.slice text)
        = .ok reread ∧ reread.entities = [item.entity.describe none] := by
  obtain ⟨passed, rest, nonempty⟩ := read.exists_passed
  have slice : item.span.slice text = String.ofList passed := by
    rw [read.span]
    exact Cursor.slice_between reached read.reaches rest nonempty
  have startRest : (Cursor.start (String.ofList passed)).rest = passed := String.toList_ofList
  have line : start.place.line = Position.origin.line + (start.place.line - 1) := by
    have firstLine : Position.origin.line ≤ start.place.line := reached.line_le
    have origin : Position.origin.line = 1 := rfl
    omega
  rw [← startRest] at rest
  obtain ⟨items, last, ⟨asked, ran⟩, entities⟩ := Reader.exists_reads_alone read rest line
  rw [slice]
  exact ⟨_, readWith_of_done ran (.inl rfl), entities⟩

/-- Spans locate the entities of a document exactly. -/
theorem hasExactSpans_of_read (accepted : readWith patternFault? options text = .ok document) :
    document.HasExactSpans patternFault? options text := by
  obtain ⟨after, asked, ran, found, -⟩ := readWith_eq_ok accepted
  have inOrder := Reader.readInOrder_document options.grammar _ _ _ _ ran
  have nonempty : ∀ span ∈ document.spans, span.start.before span.stop = true := by
    intro span member
    obtain ⟨item, inItems, rfl⟩ := List.mem_map.mp member
    obtain ⟨start, stop, -, read⟩ := inOrder.exists_readFrom inItems
    rw [read.span]
    exact read.before
  have increasing : document.spans.Pairwise Span.Precedes := inOrder.pairwise_precedes
  constructor
  · rw [spans, entities, List.length_map, List.length_map]
  · exact nonempty
  · exact increasing
  · apply increasing.imp_of_mem
    rintro first second inSpans - precedes place ⟨inFirst, inSecond⟩
    rw [not_contains_of_precedes precedes (nonempty first inSpans) inFirst] at inSecond
    cases inSecond
  · exact findsOnlyOne increasing nonempty
  · intro item member
    obtain ⟨start, stop, reached, read⟩ := inOrder.exists_readFrom member
    exact exists_read_slice reached read
  · rw [found]
    exact Question.owned_findingsOfAll _ _ (Reader.ensures_document_owned _ _ _ _ _ ran) _

/-- The type of the property is unknown, and one of the comments describes. -/
def spannedText : String :=
  "# loose\n// Colours.\nenum Colour \x7b RED \x7d\nBox \x7b bag: Bag \x7d // end\n"

theorem hasExactSpans_of_read_spannedText :
    ∃ document, readWith (fun _ => none) { Options.permissive with softErrors := true } spannedText
        = .ok document
      ∧ document.HasExactSpans (fun _ => none) { Options.permissive with softErrors := true } spannedText
      ∧ document.items.map (fun item => item.span.slice spannedText)
        = ["# loose", "enum Colour \x7b RED \x7d", "Box \x7b bag: Bag \x7d", "// end"]
      ∧ document.findings.map Finding.place = [⟨⟨4, 12⟩, ⟨4, 15⟩⟩] := by
  have accepted : readWith (fun _ => none) { Options.permissive with softErrors := true } spannedText
      = .ok ⟨[⟨.comment " loose", ⟨⟨1, 1⟩, ⟨1, 8⟩⟩⟩,
          ⟨.enumeration ⟨"Colour", some " Colours.", [], ["RED"]⟩, ⟨⟨3, 1⟩, ⟨3, 20⟩⟩⟩,
          ⟨.dataType ⟨"Box", none, [], [.plain ⟨"bag", .simple "Bag", none, none, []⟩]⟩,
            ⟨⟨4, 1⟩, ⟨4, 17⟩⟩⟩,
          ⟨.comment " end", ⟨⟨4, 18⟩, ⟨4, 24⟩⟩⟩],
        [⟨.type (.unknown "Bag"), ⟨⟨4, 12⟩, ⟨4, 15⟩⟩⟩]⟩ := by
    decide +kernel
  refine ⟨_, accepted, hasExactSpans_of_read accepted, ?_, rfl⟩
  decide +kernel

end Document

end ApiDef
