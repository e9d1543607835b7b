import ApiDef.Proofs.Text.Places
import ApiDef.Proofs.Text.Scanning
import ApiDef.Text.Literal
import ApiDef.Text.Position
set_option autoImplicit false

/-!
# Respelled texts

A text may be written down again with carriage returns in front of its line feeds, further down in a
longer text, and with more lines behind it. Its words and numbers stay as they are, because none of them
goes over the end of a line, and each of its characters stays in its column.
-/

namespace ApiDef.Text

/-!
## Places further down
-/

def Position.down (lines : Nat) (place : Position) : Position :=
  ⟨place.line + lines, place.column⟩

def Span.down (lines : Nat) (span : Span) : Span :=
  ⟨span.start.down lines, span.stop.down lines⟩

namespace Position

variable {lines : Nat} {first second : Position}

@[simp] theorem line_down (place : Position) : (place.down lines).line = place.line + lines := rfl

theorem advance_down (place : Position) (c : Char) :
    (place.down lines).advance c = (place.advance c).down lines := by
  unfold advance
  split
  · simp only [down, Position.mk.injEq, and_true]
    omega
  · rfl

theorem advanceOver_down (place : Position) (passed : List Char) :
    (place.down lines).advanceOver passed = (place.advanceOver passed).down lines := by
  induction passed generalizing place with
  | nil => rfl
  | cons c cs ih => rw [advanceOver_cons, advance_down, ih, advanceOver_cons]

theorem before_down : (first.down lines).before (second.down lines) = first.before second := by
  rw [Bool.eq_iff_iff, before_iff, before_iff]
  simp only [down]
  omega

theorem earlier_down :
    (first.down lines).earlier (second.down lines) = (first.earlier second).down lines := by
  unfold earlier
  rw [before_down]
  split <;> rfl

theorem later_down :
    (first.down lines).later (second.down lines) = (first.later second).down lines := by
  unfold later
  rw [before_down]
  split <;> rfl

/-- A carriage return in front of a line feed leads nowhere else. -/
theorem advance_return (place : Position) : (place.advance '\r').advance '\n' = place.advance '\n' := rfl

end Position

theorem Span.merge_down {lines : Nat} (first second : Span) :
    (first.down lines).merge (second.down lines) = (first.merge second).down lines := by
  rw [merge, down, down, Position.earlier_down, Position.later_down]
  rfl

theorem startsComment_eq_isPrefixOf (cs : List Char) :
    startsComment cs = (['#'].isPrefixOf cs || ['/', '/'].isPrefixOf cs) := by
  unfold startsComment
  split
  · rfl
  · rfl
  next noHash noSlashes =>
    cases cs with
    | nil => rfl
    | cons c others =>
      have notHash : c ≠ '#' := by
        rintro rfl
        exact noHash others rfl
      cases others with
      | nil => simp [List.isPrefixOf, Ne.symm notHash]
      | cons d rest =>
        by_cases slash : c = '/'
        · have notSlash : d ≠ '/' := by
            rintro rfl
            exact noSlashes rest (by rw [slash])
          simp [List.isPrefixOf, Ne.symm notHash, Ne.symm notSlash]
        · simp [List.isPrefixOf, Ne.symm notHash, Ne.symm slash]

/-- A text is over, or its line is. -/
def AtLineEnd (cs : List Char) : Prop :=
  ∀ c ∈ cs.head?, c = '\n' ∨ c = '\r'

theorem AtLineEnd.all {cs : List Char} (ended : AtLineEnd cs) (good : Char → Prop) (lineFeed : good '\n')
    (carriageReturn : good '\r') : ∀ c ∈ cs.head?, good c := by
  intro c front
  rcases ended c front with rfl | rfl
  · exact lineFeed
  · exact carriageReturn

/-- A word does not go over the end of a line. -/
def IsInLine (word : List Char) : Prop :=
  ∀ c ∈ word, c ≠ '\n' ∧ c ≠ '\r'

instance (word : List Char) : Decidable (IsInLine word) :=
  List.decidableBAll _ word

theorem IsInLine.not_mem_lineFeed {word : List Char} (inLine : IsInLine word) : '\n' ∉ word :=
  fun member => (inLine _ member).1 rfl

/-!
## Spellings
-/

/-- How a text is written down again. -/
structure Respelling where
  /-- A carriage return stands in front of each line feed. -/
  returns : Bool
  /-- The text starts this many lines further down. -/
  lines : Nat
  /-- What stands behind the text. -/
  tail : List Char
  /-- What stands behind the text, if anything does, starts on a line of its own. -/
  breaks : tail = [] ∨ ∃ others, tail = '\n' :: others

namespace Respelling

/-- Where nothing stands behind a text, no line has to break. -/
theorem breaks_nil : ([] : List Char) = [] ∨ ∃ others, ([] : List Char) = '\n' :: others :=
  .inl rfl

variable (spelling : Respelling)

/-- What is written for one character. -/
def char (c : Char) : List Char :=
  if spelling.returns && c = '\n' then ['\r', '\n'] else [c]

/-- What is written for a part of the text. -/
def chars (cs : List Char) : List Char :=
  cs.flatMap spelling.char

/-- What is written for the rest of the text, with everything behind it. -/
def text (cs : List Char) : List Char :=
  spelling.chars cs ++ spelling.tail

theorem chars_append (first second : List Char) :
    spelling.chars (first ++ second) = spelling.chars first ++ spelling.chars second :=
  List.flatMap_append

theorem char_of_inLine {c : Char} (inLine : c ≠ '\n') : spelling.char c = [c] := by
  simp [char, inLine]

theorem chars_of_inLine {cs : List Char} (inLine : '\n' ∉ cs) : spelling.chars cs = cs := by
  induction cs with
  | nil => rfl
  | cons c others ih =>
    rw [List.mem_cons, not_or] at inLine
    rw [chars, List.flatMap_cons, spelling.char_of_inLine (Ne.symm inLine.1)]
    exact congrArg (c :: ·) (ih inLine.2)

theorem text_append (first second : List Char) :
    spelling.text (first ++ second) = spelling.chars first ++ spelling.text second := by
  rw [text, chars_append, List.append_assoc, text]

theorem text_cons {c : Char} (inLine : c ≠ '\n') (others : List Char) :
    spelling.text (c :: others) = c :: spelling.text others := by
  rw [text, chars, List.flatMap_cons, spelling.char_of_inLine inLine]
  rfl

theorem text_of_inLine {passed : List Char} (inLine : '\n' ∉ passed) (rest : List Char) :
    spelling.text (passed ++ rest) = passed ++ spelling.text rest := by
  rw [text_append, chars_of_inLine _ inLine]

theorem text_lineFeed (others : List Char) :
    spelling.text ('\n' :: others)
      = if spelling.returns then '\r' :: '\n' :: spelling.text others else '\n' :: spelling.text others := by
  rw [text, chars, List.flatMap_cons, char]
  cases spelling.returns <;> rfl

/-- A respelled text starts like the text, or both have come to the end of a line. -/
theorem text_cases (cs : List Char) :
    (∃ c others, cs = c :: others ∧ c ≠ '\n' ∧ spelling.text cs = c :: spelling.text others)
      ∨ AtLineEnd cs ∧ AtLineEnd (spelling.text cs) := by
  cases cs with
  | nil =>
    refine .inr ⟨by simp [AtLineEnd], ?_⟩
    rcases spelling.breaks with none | ⟨others, lineFeed⟩
    · simp [AtLineEnd, text, chars, none]
    · simp [AtLineEnd, text, chars, lineFeed]
  | cons c others =>
    by_cases lineFeed : c = '\n'
    · subst lineFeed
      refine .inr ⟨by simp [AtLineEnd], ?_⟩
      rw [text_lineFeed]
      cases spelling.returns <;> simp [AtLineEnd]
    · exact .inl ⟨c, others, rfl, lineFeed, spelling.text_cons lineFeed others⟩

/-- Each character of a respelled text stands in its column. -/
theorem advanceOver_chars (place : Position) (cs : List Char) :
    place.advanceOver (spelling.chars cs) = place.advanceOver cs := by
  induction cs generalizing place with
  | nil => rfl
  | cons c others ih =>
    have single : place.advanceOver (spelling.char c) = place.advance c := by
      rw [char]
      split
      next both =>
        obtain ⟨-, lineFeed⟩ := Bool.and_eq_true_iff.mp both
        rw [of_decide_eq_true lineFeed]
        exact Position.advance_return place
      next => rfl
    rw [chars, List.flatMap_cons, Position.advanceOver_append, single]
    exact ih (place.advance c)

/-!
## Runs that end with their line
-/

section

variable {p : Char → Bool} (lineFeed : p '\n' = false) (carriageReturn : p '\r' = false)

include lineFeed carriageReturn

theorem getD_head?_text (cs : List Char) :
    ((spelling.text cs).head?.map p).getD false = (cs.head?.map p).getD false := by
  rcases spelling.text_cases cs with ⟨c, others, rfl, -, same⟩ | ⟨ended, endedAgain⟩
  · rw [same]
    rfl
  · have stopped : ∀ {cs : List Char}, AtLineEnd cs → (cs.head?.map p).getD false = false := by
      intro cs ended
      cases front : cs.head? with
      | none => rfl
      | some c => exact ended.all (fun c => p c = false) lineFeed carriageReturn c front
    rw [stopped ended, stopped endedAgain]

theorem stops_text {cs : List Char} (stops : Stops p cs) : Stops p (spelling.text cs) := by
  intro c others same
  have none : (cs.head?.map p).getD false = false := by
    cases cs with
    | nil => rfl
    | cons first rest => exact stops first rest rfl
  rw [← spelling.getD_head?_text lineFeed carriageReturn, same] at none
  exact none

theorem takeWhile_text (cs : List Char) : (spelling.text cs).takeWhile p = cs.takeWhile p
    ∧ (spelling.text cs).dropWhile p = spelling.text (cs.dropWhile p) := by
  have all : ∀ c ∈ cs.takeWhile p, p c = true := List.all_eq_true.mp List.all_takeWhile
  have inLine : '\n' ∉ cs.takeWhile p := by
    intro member
    rw [all _ member] at lineFeed
    cases lineFeed
  have whole := spelling.text_of_inLine inLine (cs.dropWhile p)
  rw [List.takeWhile_append_dropWhile] at whole
  have stops := spelling.stops_text lineFeed carriageReturn (stops_dropWhile p cs)
  rw [whole]
  exact ⟨takeWhile_of_stops all stops, dropWhile_of_stops all stops⟩

end

/-- A word that ends with its line stands in front of both texts or of neither. -/
theorem isPrefixOf_text {word : List Char} (inLine : IsInLine word) (cs : List Char) :
    word.isPrefixOf (spelling.text cs) = word.isPrefixOf cs := by
  induction word generalizing cs with
  | nil => rw [List.isPrefixOf_nil_left, List.isPrefixOf_nil_left]
  | cons first word ih =>
    obtain ⟨noFeed, noReturn⟩ := inLine first List.mem_cons_self
    rcases spelling.text_cases cs with ⟨c, others, rfl, -, same⟩ | ⟨ended, endedAgain⟩
    · rw [same, List.isPrefixOf, List.isPrefixOf, ih fun c member => inLine c (List.mem_cons_of_mem _ member)]
    · have missed : ∀ {others : List Char}, AtLineEnd others →
          (first :: word).isPrefixOf others = false := by
        intro others ended
        cases others with
        | nil => rfl
        | cons c rest =>
          have different : first ≠ c := ended.all (first ≠ ·) noFeed noReturn c rfl
          simp [List.isPrefixOf, different]
      rw [missed endedAgain, missed ended]

/-- What stands behind a word is respelled. -/
theorem drop_text {word cs : List Char} (inLine : IsInLine word)
    (starts : word.isPrefixOf cs = true) :
    (spelling.text cs).drop word.length = spelling.text (cs.drop word.length) := by
  obtain ⟨rest, rfl⟩ := List.isPrefixOf_iff_prefix.mp starts
  rw [spelling.text_of_inLine inLine.not_mem_lineFeed, List.drop_left, List.drop_left]

theorem startsComment_text (cs : List Char) : startsComment (spelling.text cs) = startsComment cs := by
  rw [startsComment_eq_isPrefixOf, startsComment_eq_isPrefixOf, spelling.isPrefixOf_text (by decide),
    spelling.isPrefixOf_text (by decide)]

/-!
## Runs that go over the ends of lines
-/

theorem isBlank_of_mem_char {c d : Char} (blank : isBlank c = true) (member : d ∈ spelling.char c) :
    isBlank d = true := by
  rw [char] at member
  split at member
  next both =>
    rcases List.mem_cons.mp member with rfl | last
    · decide
    · rw [List.mem_singleton.mp last]
      decide
  next =>
    rw [List.mem_singleton.mp member]
    exact blank

/-- The blanks in front of a text are respelled, unless they go on behind it. -/
theorem takeWhile_isBlank_text {cs : List Char}
    (known : spelling.tail = [] ∨ cs.dropWhile isBlank ≠ []) :
    (spelling.text cs).takeWhile isBlank = spelling.chars (cs.takeWhile isBlank)
      ∧ (spelling.text cs).dropWhile isBlank = spelling.text (cs.dropWhile isBlank) := by
  have all : ∀ c ∈ spelling.chars (cs.takeWhile isBlank), isBlank c = true := by
    intro c member
    obtain ⟨d, inside, written⟩ := List.mem_flatMap.mp member
    exact spelling.isBlank_of_mem_char (List.all_eq_true.mp List.all_takeWhile d inside) written
  have stops : Stops isBlank (spelling.text (cs.dropWhile isBlank)) := by
    have stopsFirst := stops_dropWhile isBlank cs
    cases rest : cs.dropWhile isBlank with
    | nil =>
      rcases known with none | code
      · rw [text, none]
        exact stops_nil isBlank
      · exact absurd rest code
    | cons c others =>
      have solid := stopsFirst c others rest
      have inLine : c ≠ '\n' := by
        rintro rfl
        cases solid
      rw [spelling.text_cons inLine]
      exact stops_cons solid _
  have whole := spelling.text_append (cs.takeWhile isBlank) (cs.dropWhile isBlank)
  rw [List.takeWhile_append_dropWhile] at whole
  rw [whole]
  exact ⟨takeWhile_of_stops all stops, dropWhile_of_stops all stops⟩

/-- What is left of a line, and what stands behind it: a carriage return belongs to the line. -/
theorem takeWhile_line_text (cs : List Char) :
    ((spelling.text cs).takeWhile (· ≠ '\n') = cs.takeWhile (· ≠ '\n')
      ∧ (spelling.text cs).dropWhile (· ≠ '\n') = spelling.text (cs.dropWhile (· ≠ '\n')))
    ∨ spelling.returns = true ∧ ∃ others, cs.dropWhile (· ≠ '\n') = '\n' :: others
      ∧ (spelling.text cs).takeWhile (· ≠ '\n') = cs.takeWhile (· ≠ '\n') ++ ['\r']
      ∧ (spelling.text cs).dropWhile (· ≠ '\n') = '\n' :: spelling.text others := by
  have all : ∀ c ∈ cs.takeWhile (· ≠ '\n'), decide (c ≠ '\n') = true :=
    List.all_eq_true.mp List.all_takeWhile
  have inLine : '\n' ∉ cs.takeWhile (· ≠ '\n') := fun member => by simpa using all _ member
  have whole := spelling.text_of_inLine inLine (cs.dropWhile (· ≠ '\n'))
  rw [List.takeWhile_append_dropWhile] at whole
  rw [whole]
  have goesOn : ∀ {rest : List Char}, Stops (· ≠ '\n') rest →
      (cs.takeWhile (· ≠ '\n') ++ rest).takeWhile (· ≠ '\n') = cs.takeWhile (· ≠ '\n')
        ∧ (cs.takeWhile (· ≠ '\n') ++ rest).dropWhile (· ≠ '\n') = rest :=
    fun stops => ⟨takeWhile_of_stops all stops, dropWhile_of_stops all stops⟩
  cases rest : cs.dropWhile (· ≠ '\n') with
  | nil =>
    have stops : Stops (· ≠ '\n') (spelling.text []) := by
      rcases spelling.breaks with none | ⟨others, lineFeed⟩
      · rw [text, none]
        exact stops_nil _
      · rw [text, lineFeed]
        exact stops_cons (by decide) others
    exact .inl (goesOn stops)
  | cons c others =>
    obtain rfl : c = '\n' := by simpa using stops_dropWhile (· ≠ '\n') cs c others rest
    rw [text_lineFeed]
    cases returns : spelling.returns with
    | false =>
      simp only [Bool.false_eq_true, if_false]
      exact .inl (goesOn (stops_cons (by decide) _))
    | true =>
      have stops : Stops (· ≠ '\n') ('\n' :: spelling.text others) := stops_cons (by decide) _
      have allAgain : ∀ c ∈ cs.takeWhile (· ≠ '\n') ++ ['\r'], decide (c ≠ '\n') = true := by
        intro c member
        rcases List.mem_append.mp member with inside | last
        · exact all c inside
        · rw [List.mem_singleton.mp last]
          decide
      simp only [if_true]
      refine .inr ⟨trivial, others, rfl, ?_⟩
      rw [List.append_cons]
      exact ⟨takeWhile_of_stops allAgain stops, dropWhile_of_stops allAgain stops⟩

/-- The carriage return that was written at the end of a line is left out again. -/
theorem dropCarriageReturn_text {cs : List Char} (plain : spelling.returns = true → '\r' ∉ cs) :
    dropCarriageReturn ((spelling.text cs).takeWhile (· ≠ '\n'))
      = dropCarriageReturn (cs.takeWhile (· ≠ '\n')) := by
  rcases spelling.takeWhile_line_text cs with ⟨taken, -⟩ | ⟨returns, others, -, taken, -⟩
  · rw [taken]
  · have none : (cs.takeWhile (· ≠ '\n')).getLast? ≠ some '\r' := by
      intro last
      apply plain returns
      exact List.takeWhile_subset _ (List.mem_of_getLast? last)
    have kept : dropCarriageReturn (cs.takeWhile (· ≠ '\n')) = cs.takeWhile (· ≠ '\n') := by
      unfold dropCarriageReturn
      split
      next last => exact absurd last none
      next => rfl
    rw [taken, kept, dropCarriageReturn, List.getLast?_concat, List.dropLast_concat]
    rfl

end Respelling

end ApiDef.Text
