import ApiDef.Proofs.Document.Findings
import ApiDef.Proofs.Reader.DocumentLocated
set_option autoImplicit false

/-!
# Reported locations

Whatever comes of reading a text, every span, every place of a finding and the place of an error lie in
the text, and an error that names what was found names what stands at its place.
-/

namespace ApiDef

open Text

namespace Question

/-- A finding stands where its question asked. -/
theorem place_mem_places {patternFault? : String → Option String} {options : Options} {table : TypeTable}
    {question : Question} {finding : Finding}
    (member : finding ∈ question.findings patternFault? options table) :
    finding.place ∈ question.places := by
  cases question with
  | declare name => exact absurd member List.not_mem_nil
  | tags site found =>
    obtain ⟨entry, inFound, issued⟩ := List.mem_filterMap.mp member
    obtain ⟨issue, -, rfl⟩ := Option.map_eq_some_iff.mp issued
    exact List.mem_map_of_mem inFound
  | type declared place =>
    obtain ⟨issue, -, rfl⟩ := List.mem_map.mp member
    exact List.mem_singleton_self place
  | route method place =>
    simp only [findings] at member
    split at member
    next =>
      obtain ⟨issue, -, rfl⟩ := Option.map_eq_some_iff.mp (Option.mem_toList.mp member)
      exact List.mem_singleton_self place
    next => exact absurd member List.not_mem_nil

theorem exists_question_of_finding {patternFault? : String → Option String} {options : Options}
    {table : TypeTable} {asked : List Question} {finding : Finding}
    (member : finding ∈ findingsOfAll patternFault? options table asked) :
    ∃ question ∈ asked, finding.place ∈ question.places := by
  induction asked generalizing table with
  | nil => exact absurd member List.not_mem_nil
  | cons question others ih =>
    rcases List.mem_append.mp member with member | member
    · exact ⟨question, List.mem_cons_self, place_mem_places member⟩
    · obtain ⟨other, inOthers, place⟩ := ih member
      exact ⟨other, List.mem_cons_of_mem _ inOthers, place⟩

end Question

/-- What a message says was found is told by the place: nothing at the end of the text, and otherwise
the one character that the place covers. -/
def ReadError.NamesFound (text : String) (error : ReadError) : Prop :=
  ∀ listed shown, error.message = "Expected " ++ listed ++ " but " ++ shown ++ " found." →
    (shown = "end of input" ↔ error.place.EndsText text)
      ∧ (¬error.place.EndsText text →
        ∃ c, error.place.Covers text c ∧ shown = quote (String.singleton c))

theorem Fault.quote_ne_endOfInput (text : String) : quote text ≠ "end of input" := by
  intro same
  have first := congrArg (fun shown => shown.toList.head?) same
  simp only [quote, String.toList_ofList, quoteChars, List.head?_cons] at first
  have letter : "end of input".toList.head? = some 'e' := by decide
  rw [letter] at first
  cases first

theorem Fault.namesFound {text : String} {fault : Fault}
    (lies : fault.LiesBehind (.start text)) : (ReadError.fault fault).NamesFound text := by
  intro listed shown message
  have words : fault.cause.message = "Expected " ++ listed ++ " but " ++ shown ++ " found." := message
  obtain ⟨expected, found, cause⟩ : ∃ expected found, fault.cause = .unexpected expected found := by
    rw [String.append_assoc, String.append_assoc, String.append_assoc] at words
    exact exists_unexpected_of_message words
  obtain ⟨plain, cursor, reached, place, next⟩ := lies.unexpected expected found cause
  rw [cause] at words
  obtain rfl := found_of_message plain words
  simp only [ReadError.place, place]
  cases found with
  | none =>
    have ended := Cursor.endsText_nextSpan reached next.symm
    constructor
    · exact iff_of_true rfl ended
    · exact fun goesOn => absurd ended goesOn
  | some c =>
    have covers := Cursor.covers_nextSpan reached next.symm
    constructor
    · exact iff_of_false (quote_ne_endOfInput _) (Span.not_endsText_of_covers covers)
    · intro _
      exact ⟨c, covers, rfl⟩

theorem Finding.namesFound (text : String) (finding : Finding) :
    (ReadError.finding finding).NamesFound text := by
  intro listed shown message
  have words : finding.issue.message = "Expected " ++ listed ++ " but " ++ shown ++ " found." := message
  simp only [String.append_assoc] at words
  exact absurd words (finding.issue.startsApart_message.ne _)

namespace Document

variable {patternFault? : String → Option String} {options : Options} {text : String}

/-- The places that a run over a text asks about lie in the text. -/
theorem liesIn_of_mem_findingsAbout {asked : List Question} {finding : Finding}
    (held : Question.AllHeld (.start text) asked)
    (member : finding ∈ findingsAbout patternFault? options asked) : finding.place.LiesIn text := by
  obtain ⟨question, inAsked, place⟩ := Question.exists_question_of_finding member
  exact (held question inAsked finding.place place).liesIn

theorem allHeld_asked_outcome (grammar : Grammar) (text : String) :
    Question.AllHeld (.start text) (outcome grammar text).asked := by
  have locates := Reader.locates_document grammar (.start text)
  rw [Reader.Locates] at locates
  rw [outcome]
  cases ran : (Reader.document grammar).run (.start text) with
  | done items after asked =>
    rw [ran] at locates
    exact locates.2.held
  | failed fault asked =>
    rw [ran] at locates
    exact locates.2

/-- An error is a finding or a fault of the text. -/
theorem readWith_eq_error {error : ReadError}
    (refused : readWith patternFault? options text = .error error) :
    (∃ finding ∈ findingsAbout patternFault? options (outcome options.grammar text).asked,
        error = .finding finding)
      ∨ ∃ fault asked, outcome options.grammar text = .failed fault asked ∧ error = .fault fault := by
  simp only [readWith_eq] at refused
  split at refused
  case h_1 _ finding _ _ found =>
    left
    rw [found]
    exact ⟨finding, List.mem_cons_self, (Except.error.inj refused).symm⟩
  case h_2 => cases refused
  case h_3 fault asked failed _ =>
    right
    exact ⟨fault, asked, failed, (Except.error.inj refused).symm⟩

/-- Every location that reading a text reports is real: spans and findings of a document, and the place
of an error, which covers what its message says was found. -/
theorem locations_of_readWith (patternFault? : String → Option String) (options : Options) (text : String) :
    (∀ document, readWith patternFault? options text = .ok document →
      (∀ span ∈ document.spans, span.LiesIn text)
        ∧ ∀ finding ∈ document.findings, finding.place.LiesIn text)
      ∧ ∀ error, readWith patternFault? options text = .error error →
        error.place.LiesIn text ∧ error.NamesFound text := by
  have locates := Reader.locates_document options.grammar (.start text)
  have held := allHeld_asked_outcome options.grammar text
  constructor
  · intro document accepted
    obtain ⟨after, asked, ran, found, -⟩ := readWith_eq_ok accepted
    rw [ran] at held
    have run : (Reader.document options.grammar).run (.start text)
      = .done document.items after asked := ran
    rw [Reader.Locates, run] at locates
    constructor
    · intro span member
      obtain ⟨item, inItems, rfl⟩ := List.mem_map.mp member
      exact Cursor.Holds.liesIn ⟨after, locates.1 item inItems⟩
    · intro finding member
      rw [found] at member
      exact liesIn_of_mem_findingsAbout held member
  · intro error refused
    rcases readWith_eq_error refused with ⟨finding, member, rfl⟩ | ⟨fault, asked, failed, rfl⟩
    · constructor
      · exact liesIn_of_mem_findingsAbout held member
      · exact finding.namesFound text
    · have run : (Reader.document options.grammar).run (.start text) = .failed fault asked := failed
      rw [Reader.Locates, run] at locates
      constructor
      · exact locates.1.holds.liesIn
      · exact Fault.namesFound locates.1

/-- One type of this text is unknown. -/
def unknownTypeText : String := "Box \x7b\n  name: string = \"ü\"\n  bag: Bag\n\x7d"

/-- The string of this text does not end. -/
def openStringText : String := "Box \x7b\n  name: string = \"ü"

theorem locations_of_readWith_openString :
    (∃ document, readWith (fun _ => none) { Options.permissive with softErrors := true } unknownTypeText
        = .ok document
      ∧ (∀ span ∈ document.spans, span.LiesIn unknownTypeText)
      ∧ document.findings.length = 1
      ∧ ∀ finding ∈ document.findings, finding.place.LiesIn unknownTypeText)
    ∧ ∃ error, readWith (fun _ => none) Options.permissive openStringText = .error error
      ∧ error.message = "Expected \"\\\"\" or character but end of input found."
      ∧ error.place.LiesIn openStringText ∧ error.place.EndsText openStringText := by
  constructor
  · have accepted : readWith (fun _ => none) { Options.permissive with softErrors := true }
        unknownTypeText = .ok ⟨[⟨.dataType ⟨"Box", none, [],
          [.plain ⟨"name", .simple "string", none, some "\"ü\"", []⟩,
            .plain ⟨"bag", .simple "Bag", none, none, []⟩]⟩, ⟨⟨1, 1⟩, ⟨4, 2⟩⟩⟩],
          [⟨.type (.unknown "Bag"), ⟨⟨3, 8⟩, ⟨3, 11⟩⟩⟩]⟩ := by
      decide +kernel
    obtain ⟨spans, findings⟩ := (locations_of_readWith _ _ _).1 _ accepted
    exact ⟨_, accepted, spans, rfl, findings⟩
  · have refused : readWith (fun _ => none) Options.permissive openStringText
        = .error (.fault ⟨.unexpected [.mark "\"", .character] none, .point ⟨2, 20⟩⟩) := by
      decide +kernel
    have message : (ReadError.fault ⟨.unexpected [.mark "\"", .character] none, .point ⟨2, 20⟩⟩).message
        = "Expected " ++ "\"\\\"\" or character" ++ " but " ++ "end of input" ++ " found." := by
      decide +kernel
    obtain ⟨lies, names⟩ := (locations_of_readWith _ _ _).2 _ refused
    exact ⟨_, refused, message, lies, (names _ _ message).1.mp rfl⟩

end Document

end ApiDef
