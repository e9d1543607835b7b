import ApiDef.Document
import ApiDef.Proofs.Reader.Replayed
import ApiDef.Proofs.Reader.TypeText
set_option autoImplicit false

/-!
# Types and how they are spelled

The text of a type is read as that type exactly if its generic arguments nest within the default limit.
Any other text that is read as the type differs from this one in blanks only.
-/

namespace ApiDef

open Text

namespace Text

/-- What is left of a text without its blanks. -/
def nonBlanks (cs : List Char) : List Char :=
  cs.filter fun c => !isBlank c

theorem nonBlanks_append (first second : List Char) :
    nonBlanks (first ++ second) = nonBlanks first ++ nonBlanks second :=
  List.filter_append first second

theorem nonBlanks_cons_blank {c : Char} (blank : isBlank c = true) (cs : List Char) :
    nonBlanks (c :: cs) = nonBlanks cs := by
  simp [nonBlanks, blank]

theorem nonBlanks_cons {c : Char} (solid : isBlank c = false) (cs : List Char) :
    nonBlanks (c :: cs) = c :: nonBlanks cs := by
  simp [nonBlanks, solid]

theorem nonBlanks_dropWhile (cs : List Char) : nonBlanks (cs.dropWhile isBlank) = nonBlanks cs := by
  induction cs with
  | nil => rfl
  | cons c cs ih =>
    cases blank : isBlank c with
    | true => rw [List.dropWhile_cons_of_pos blank, ih, nonBlanks_cons_blank blank]
    | false => rw [List.dropWhile_cons_of_neg (by simp [blank])]

end Text

namespace Reader

variable {α : Type}

/-!
## What a reader takes
-/

/-- Apart from blanks, the reader takes the text of its value. -/
def Spells (reader : Reader α) (text : α → List Char) : Prop :=
  ∀ start value stop, reader.Reads start value stop →
    nonBlanks start.rest = nonBlanks (text value) ++ nonBlanks stop.rest

theorem rest_of_reads_eat {c : Char} {start stop : Cursor} (read : (eat c).Reads start true stop) :
    start.rest = c :: stop.rest := by
  obtain ⟨asked, ran⟩ := read
  simp only [eat, eatText] at ran
  split at ran
  next starts =>
    obtain ⟨-, rfl, -⟩ := Outcome.done.inj ran
    obtain ⟨others, whole⟩ := List.isPrefixOf_iff_prefix.mp starts
    rw [← whole, Cursor.pass, List.drop_left]
    rfl
  next => cases ran

theorem spells_skipBlanks : skipBlanks.Spells fun _ => [] := by
  rintro start _ stop ⟨asked, ran⟩
  rw [run_skipBlanks_landed] at ran
  obtain ⟨-, rfl, -⟩ := Outcome.done.inj ran
  exact (nonBlanks_dropWhile start.rest).symm

theorem spells_identifier (also : List Expected) : (identifier also).Spells String.toList := by
  intro start name stop read
  obtain ⟨found, middle, readWord, read⟩ := reads_bind_iff.mp read
  cases found with
  | none => exact absurd read (not_reads_of_failed rfl)
  | some word =>
    obtain ⟨rfl, rfl⟩ := reads_pure_iff.mp read
    obtain ⟨-, same, left⟩ := reads_identifier?_some readWord
    rw [same, left, ← nonBlanks_append, List.takeWhile_append_dropWhile]

theorem spells_listMark : listMark.Spells fun isList => (TypeRef.listMark isList).toList := by
  intro start isList stop read
  obtain ⟨opened, middle, readOpening, read⟩ := reads_bind_iff.mp read
  cases opened with
  | true =>
    obtain ⟨_, behind, readClosing, read⟩ := reads_bind_iff.mp read
    obtain ⟨rfl, rfl⟩ := reads_pure_iff.mp read
    obtain ⟨closed, after, readMark, done⟩ := reads_bind_iff.mp readClosing
    cases closed with
    | true =>
      obtain ⟨-, rfl⟩ := reads_pure_iff.mp done
      rw [rest_of_reads_eat readOpening, rest_of_reads_eat readMark, ← nonBlanks_append]
      rfl
    | false => exact absurd done (not_reads_of_failed rfl)
  | false =>
    obtain ⟨rfl, rfl⟩ := reads_pure_iff.mp read
    rw [eq_of_reads_eat_false readOpening]
    rfl

/-!
## Lists
-/

section

variable {item : Advancing α} {close : Char} {text : α → List Char}

/-- The text behind the opening bracket of a list, up to and including its closing bracket. -/
def listedText (close : Char) (text : α → List Char) (first : α) (others : List α) : List Char :=
  text first ++ (others.flatMap (fun value => ',' :: ' ' :: text value) ++ [close])

/-- A list is read from the text of its items. -/
def SpellsList (close : Char) (text : α → List Char) (start : Cursor) (found : List α)
    (stop : Cursor) : Prop :=
  ∃ first others, found = first :: others
    ∧ nonBlanks start.rest = nonBlanks (listedText close text first others) ++ nonBlanks stop.rest

/-- A list with one more item in front is read from a text with one more item in front. -/
theorem SpellsList.cons {start middle stop : Cursor} {value : α} {others : List α}
    (taken : nonBlanks start.rest = nonBlanks (text value) ++ ',' :: nonBlanks middle.rest)
    (listed : SpellsList close text middle others stop) :
    SpellsList close text start (value :: others) stop := by
  obtain ⟨second, others, rfl, rest⟩ := listed
  refine ⟨value, second :: others, rfl, ?_⟩
  -- The text of a list has a blank behind each comma, which does not count.
  rw [taken, rest, listedText, listedText, List.flatMap_cons]
  simp only [nonBlanks_append, nonBlanks_cons (c := ',') (by decide),
    nonBlanks_cons_blank (c := ' ') (by decide), List.cons_append, List.append_assoc]

theorem spellsList_separatedRound (itemSpells : item.toReader.Spells text)
    (solid : isBlank close = false) (start : Cursor) :
    (separatedRound skipBlanks item close ()).Ensures start fun result after _ =>
      result.Leads (fun _ => SpellsList close text) () start after := by
  intro result after asked ran
  have read : (separatedRound skipBlanks item close ()).Reads start result after := ⟨asked, ran⟩
  obtain ⟨_, atItem, gap, readItem⟩ := reads_bind_iff.mp read
  obtain ⟨value, behindItem, itemRead, readBehind⟩ := reads_bind_iff.mp readItem
  obtain ⟨_, atMark, gapBehind, readMark⟩ := reads_bind_iff.mp readBehind
  have taken : nonBlanks start.rest = nonBlanks (text value) ++ nonBlanks atMark.rest := by
    rw [spells_skipBlanks _ _ _ gap, itemSpells _ _ _ itemRead, spells_skipBlanks _ _ _ gapBehind]
    rfl
  obtain ⟨closed, behindClose, closeRead, readOn⟩ := reads_bind_iff.mp readMark
  cases closed with
  | true =>
    obtain ⟨rfl, rfl⟩ := reads_pure_iff.mp readOn
    refine ⟨value, [], rfl, ?_⟩
    rw [taken, rest_of_reads_eat closeRead, listedText, List.flatMap_nil, List.nil_append,
      nonBlanks_append, nonBlanks_cons solid, nonBlanks_cons solid, List.append_assoc]
    rfl
  | false =>
    obtain rfl := eq_of_reads_eat_false closeRead
    obtain ⟨comma, behindComma, commaRead, readNext⟩ := reads_bind_iff.mp readOn
    cases comma with
    | false => exact absurd readNext (not_reads_of_failed rfl)
    | true =>
      obtain ⟨rfl, rfl⟩ := reads_pure_iff.mp readNext
      intro others final listed
      refine listed.cons ?_
      rw [taken, rest_of_reads_eat commaRead, nonBlanks_cons (by decide)]

theorem spellsList_separated (itemSpells : item.toReader.Spells text) (solid : isBlank close = false)
    {start stop : Cursor} {found : List α}
    (read : (separated skipBlanks item close).Reads start found stop) :
    SpellsList close text start found stop := by
  have leads : (separated skipBlanks item close).Ensures start fun found after _ =>
      SpellsList close text start found after :=
    ensures_rounds_leads (fun _ start => spellsList_separatedRound itemSpells solid start) () start
  obtain ⟨asked, ran⟩ := read
  exact leads found stop asked ran

end

/-!
## Types
-/

theorem spells_typeArguments {inner : Unit → Advancing TypeRef}
    (innerSpells : (inner ()).toReader.Spells fun type => type.text.toList) :
    (typeArguments inner).Spells (bracketed '<' '>' fun type => type.text.toList) := by
  intro start generics stop read
  obtain ⟨opened, behindOpening, opening, readItems⟩ := reads_bind_iff.mp read
  cases opened with
  | true =>
    obtain ⟨first, others, rfl, rest⟩ := spellsList_separated innerSpells (by decide) readItems
    rw [rest_of_reads_eat opening, bracketed, nonBlanks_cons (by decide), rest,
      nonBlanks_cons (by decide)]
    rfl
  | false =>
    obtain ⟨rfl, rfl⟩ := reads_pure_iff.mp readItems
    rw [eq_of_reads_eat_false opening]
    rfl

theorem spells_typeRef (limit levels : Nat) :
    (typeRef limit levels).toReader.Spells fun type => type.text.toList := by
  induction levels with
  | zero => exact fun start type stop read => absurd read (not_reads_of_failed rfl)
  | succ levels ih =>
    intro start type stop read
    change (typeRefLevel fun _ => typeRef limit levels).Reads _ _ _ at read
    rw [typeRefLevel_eq] at read
    obtain ⟨name, behindName, nameRead, readArguments⟩ := reads_bind_iff.mp read
    obtain ⟨generics, behindArguments, argumentsRead, readMark⟩ := reads_bind_iff.mp readArguments
    obtain ⟨isList, behindMark, markRead, readEnd⟩ := reads_bind_iff.mp readMark
    obtain ⟨rfl, rfl⟩ := reads_pure_iff.mp readEnd
    dsimp only
    rw [TypeRef.toList_text, nonBlanks_append, nonBlanks_append, List.append_assoc, List.append_assoc,
      ← spells_listMark _ _ _ markRead, ← spells_typeArguments ih _ _ _ argumentsRead,
      ← spells_identifier _ _ _ _ nameRead]

/-- What is read as a whole type is its text, apart from blanks, and nothing is left. -/
theorem spelled_of_reads_wholeTypeRef {limit : Nat} {start stop : Cursor} {type : TypeRef}
    (read : (wholeTypeRef limit).Reads start type stop) :
    (type.isWellFormed = true ∧ type.nesting ≤ limit)
      ∧ nonBlanks start.rest = nonBlanks type.text.toList := by
  obtain ⟨_, atType, gap, readType⟩ := reads_bind_iff.mp read
  obtain ⟨found, behindType, typeRead, readGap⟩ := reads_bind_iff.mp readType
  obtain ⟨_, atEnd, gapBehind, readEnd⟩ := reads_bind_iff.mp readGap
  rw [reads_look_bind] at readEnd
  split at readEnd
  next ended =>
    obtain ⟨rfl, rfl⟩ := reads_pure_iff.mp readEnd
    constructor
    · obtain ⟨asked, ran⟩ := typeRead
      obtain ⟨⟨valid, fits⟩, -⟩ := ensures_typeRef limit (limit + 1) atType _ _ _ ran
      exact ⟨valid, Nat.le_of_lt_succ fits⟩
    · rw [spells_skipBlanks _ _ _ gap, spells_typeRef _ _ _ _ _ typeRead,
        spells_skipBlanks _ _ _ gapBehind, List.isEmpty_iff.mp ended]
      simp [nonBlanks]
  next => exact absurd readEnd (not_reads_of_failed rfl)

end Reader

namespace TypeRef

/-- A whole text that is a type is read as that type, if it fits into the levels. -/
theorem yields_whole (limit : Nat) {type : TypeRef} (valid : type.isWellFormed = true)
    {start : Cursor} (rest : start.rest = type.text.toList) :
    (Reader.wholeTypeRef limit).Yields start (type.nesting < limit + 1) fun found _ => found = type := by
  have solid := (Reader.solid_typeText valid []).1
  rw [List.append_nil] at solid
  have whole : (start.pass [] type.text.toList).rest = type.text.toList ++ [] :=
    (List.append_nil _).symm
  refine Reader.yields_after (Reader.run_skipBlanks rest blank_nil solid) ?_
  refine Reader.Yields.finally (Reader.yields_typeRef limit (limit + 1) valid whole
    Reader.endsType_nil) ?_
  intro found after got
  obtain ⟨rfl, ended⟩ := got
  refine Reader.yields_after (Reader.run_skipBlanks ended blank_nil (stops_nil _)) ?_
  refine Reader.yields_after (Reader.run_look _ _) ?_
  exact Reader.yields_pure rfl

/-- Whether a type can be spelled, and its spelling read without options. -/
def isReadable (type : TypeRef) : Bool :=
  type.isWellFormed && type.nesting ≤ Options.defaultNestingDepth

theorem isReadable_iff {type : TypeRef} :
    type.isReadable = true
      ↔ type.isWellFormed = true ∧ type.nesting ≤ Options.defaultNestingDepth := by
  rw [isReadable, Bool.and_eq_true, decide_eq_true_eq]

/-- The text of a type is read as that type, or the type nests too deeply. -/
theorem read_text {type : TypeRef} (valid : type.isWellFormed = true) :
    type.isReadable = true ∧ read type.text = .ok type
      ∨ type.isReadable = false ∧ ∃ error, read type.text = .error error ∧ error.kind = .security := by
  have yields := yields_whole Options.defaultNestingDepth valid (rfl : (Cursor.start type.text).rest = _)
  unfold Reader.Yields at yields
  unfold read
  cases ran : (Reader.wholeTypeRef Options.defaultNestingDepth).run (.start type.text) with
  | done found after asked =>
    rw [ran] at yields
    obtain ⟨fits, rfl⟩ := yields
    exact .inl ⟨isReadable_iff.mpr ⟨valid, Nat.le_of_lt_succ fits⟩, rfl⟩
  | failed fault asked =>
    rw [ran] at yields
    obtain ⟨tooDeep, limit, cause⟩ := yields
    refine .inr ⟨?_, .fault fault, rfl, ?_⟩
    · rw [← Bool.not_eq_true, isReadable_iff]
      exact fun readable => tooDeep (Nat.lt_succ_of_le readable.2)
    · obtain ⟨_, place⟩ := fault
      obtain rfl : _ = _ := cause
      rfl

theorem read_text_of_isReadable {type : TypeRef} (readable : type.isReadable = true) :
    read type.text = .ok type := by
  rcases read_text (isReadable_iff.mp readable).1 with ⟨-, found⟩ | ⟨unreadable, -⟩
  · exact found
  · rw [readable] at unreadable
    cases unreadable

/-- A text that is read as a type is the text of that type, apart from blanks. -/
theorem isReadable_of_read {text : String} {type : TypeRef} (found : read text = .ok type) :
    type.isReadable = true ∧ nonBlanks text.toList = nonBlanks type.text.toList := by
  unfold read at found
  split at found
  next asked ran =>
    obtain rfl := Except.ok.inj found
    obtain ⟨facts, same⟩ := Reader.spelled_of_reads_wholeTypeRef ⟨asked, ran⟩
    exact ⟨isReadable_iff.mpr facts, same⟩
  next => cases found

/-- The text of a well-formed type is read as that type exactly if the type nests within the limit, and
a text that is read as a type differs from the text of that type in blanks only. -/
theorem read_text_up_to_blanks :
    (∀ type : TypeRef, type.isWellFormed = true →
      (type.nesting ≤ Options.defaultNestingDepth → read type.text = .ok type)
        ∧ (Options.defaultNestingDepth < type.nesting →
          ∃ error, read type.text = .error error ∧ error.kind = .security))
      ∧ ∀ (text : String) (type : TypeRef), read text = .ok type →
        nonBlanks text.toList = nonBlanks type.text.toList ∧ read type.text = .ok type := by
  constructor
  · intro type valid
    constructor
    · exact fun fits => read_text_of_isReadable (isReadable_iff.mpr ⟨valid, fits⟩)
    · intro deeper
      rcases read_text valid with ⟨readable, -⟩ | ⟨-, failed⟩
      · exact absurd (isReadable_iff.mp readable).2 (Nat.not_le_of_lt deeper)
      · exact failed
  · intro text type found
    obtain ⟨readable, same⟩ := isReadable_of_read found
    exact ⟨same, read_text_of_isReadable readable⟩

/-- A name inside as many lists of arguments. -/
def nestedIn : Nat → TypeRef
  | 0 => simple "A"
  | levels + 1 => mk "A" false [nestedIn levels]

/-- A list of maps, spelled with blanks wherever they may stand. -/
def spacedText : String := "\n Map<\tstring ,  List<User>[] >[] "

theorem read_text_up_to_blanks_nested :
    read (nestedIn 64).text = .ok (nestedIn 64)
      ∧ (∃ error, read (nestedIn 65).text = .error error ∧ error.kind = .security)
      ∧ nonBlanks spacedText.toList = nonBlanks "Map<string, List<User>[]>[]".toList := by
  obtain ⟨ofType, ofText⟩ := read_text_up_to_blanks
  refine ⟨(ofType _ (by decide +kernel)).1 (by decide +kernel),
    (ofType _ (by decide +kernel)).2 (by decide +kernel), ?_⟩
  have found : read spacedText
      = .ok (mk "Map" true [simple "string", mk "List" true [simple "User"]]) := by
    decide +kernel
  exact (ofText _ _ found).1

end TypeRef

end ApiDef
