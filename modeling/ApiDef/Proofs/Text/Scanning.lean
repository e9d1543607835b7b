import ApiDef.Text.Blank
import ApiDef.Text.Identifier
set_option autoImplicit false

/-!
# Where scanning stops

A run of characters that satisfy a condition ends at the first one that does not, so a text is cut
where it was joined.
-/

namespace ApiDef.Text

/-- No character that satisfies the condition stands at the start of a text. -/
def Stops (p : Char → Bool) (tail : List Char) : Prop :=
  ∀ c others, tail = c :: others → p c = false

theorem stops_nil (p : Char → Bool) : Stops p [] := by
  intro c others same
  cases same

theorem stops_cons {p : Char → Bool} {c : Char} (stop : p c = false) (others : List Char) :
    Stops p (c :: others) := by
  intro first rest same
  cases same
  exact stop

theorem stops_dropWhile (p : Char → Bool) (cs : List Char) : Stops p (cs.dropWhile p) := by
  intro c others same
  have first := List.head?_dropWhile_not p cs
  simpa [same] using first

theorem takeWhile_of_stops {p : Char → Bool} {passed tail : List Char}
    (all : ∀ c ∈ passed, p c = true) (stop : Stops p tail) :
    (passed ++ tail).takeWhile p = passed := by
  rw [List.takeWhile_append_of_pos all]
  cases tail with
  | nil => simp
  | cons c others => simp [stop c others rfl]

theorem dropWhile_of_stops {p : Char → Bool} {passed tail : List Char}
    (all : ∀ c ∈ passed, p c = true) (stop : Stops p tail) :
    (passed ++ tail).dropWhile p = tail := by
  rw [List.dropWhile_append_of_pos all]
  cases tail with
  | nil => simp
  | cons c others => simp [stop c others rfl]

/-!
## Blanks
-/

theorem isBlank_lineFeed : isBlank '\n' = true := by decide

theorem blank_nil : ∀ c ∈ ([] : List Char), isBlank c = true :=
  List.forall_mem_nil _

theorem blank_space : ∀ c ∈ [' '], isBlank c = true :=
  List.forall_mem_singleton.mpr (by decide)

theorem blank_lineFeed : ∀ c ∈ ['\n'], isBlank c = true :=
  List.forall_mem_singleton.mpr isBlank_lineFeed

theorem trimStart_of_stops {cs : List Char} (stops : Stops isBlank cs) : trimStart cs = cs :=
  dropWhile_of_stops blank_nil stops

theorem mem_of_mem_dropCarriageReturn {c : Char} {line : List Char}
    (member : c ∈ dropCarriageReturn line) : c ∈ line := by
  unfold dropCarriageReturn at member
  split at member
  · exact List.dropLast_subset line member
  · exact member

theorem dropCarriageReturn_of_getLast?_ne {line : List Char} (last : line.getLast? ≠ some '\r') :
    dropCarriageReturn line = line := by
  unfold dropCarriageReturn
  split
  next same => exact absurd same last
  next => rfl

/-!
## Cuts
-/

section

variable {c mark : Char} {cs before after : List Char}

theorem exists_of_map_cons {found : Option (List Char × List Char)}
    (same : (found.map fun parts => (c :: parts.1, parts.2)) = some (before, after)) :
    ∃ front, found = some (front, after) ∧ before = c :: front := by
  obtain ⟨⟨front, behind⟩, rfl, both⟩ := Option.map_eq_some_iff.mp same
  obtain ⟨rfl, rfl⟩ := Prod.mk.inj both
  exact ⟨front, rfl, rfl⟩

theorem cutAt?_eq_none_iff : cutAt? mark cs = none ↔ mark ∉ cs := by
  induction cs with
  | nil => simp [cutAt?]
  | cons c cs ih =>
    rw [cutAt?]
    split
    next same => simp [same]
    next different => simp [ih, Ne.symm different]

theorem cutAt?_append (absent : mark ∉ before) :
    cutAt? mark (before ++ mark :: after) = some (before, after) := by
  induction before with
  | nil => simp [cutAt?]
  | cons c others ih =>
    have different : c ≠ mark := Ne.symm (List.ne_of_not_mem_cons absent)
    rw [List.cons_append, cutAt?, if_neg different, ih (List.not_mem_of_not_mem_cons absent)]
    rfl

/-- A text is cut at the first mark in it. -/
theorem cutAt?_eq_some_iff :
    cutAt? mark cs = some (before, after) ↔ cs = before ++ mark :: after ∧ mark ∉ before := by
  constructor
  · intro cut
    induction cs generalizing before with
    | nil => cases cut
    | cons c others ih =>
      rw [cutAt?] at cut
      split at cut
      next same =>
        obtain ⟨rfl, rfl⟩ := Prod.mk.inj (Option.some.inj cut)
        exact ⟨by rw [same, List.nil_append], List.not_mem_nil⟩
      next different =>
        obtain ⟨front, found, rfl⟩ := exists_of_map_cons cut
        obtain ⟨whole, absent⟩ := ih found
        exact ⟨by rw [whole, List.cons_append],
          List.not_mem_cons_of_ne_of_not_mem (Ne.symm different) absent⟩
  · intro ⟨whole, absent⟩
    rw [whole, cutAt?_append absent]

end

/-!
## Words
-/

theorem exists_of_isIdentifier {name : String} (valid : isIdentifier name = true) :
    ∃ first others, name.toList = first :: others ∧ isIdentifierStart first = true
      ∧ ∀ c ∈ name.toList, isIdentifierChar c = true := by
  unfold isIdentifier at valid
  split at valid
  next => simp at valid
  next first others same =>
    simp only [Bool.and_eq_true, List.all_eq_true] at valid
    refine ⟨first, others, same, valid.1, fun c member => ?_⟩
    rw [same] at member
    rcases List.mem_cons.mp member with rfl | member
    · exact isIdentifierChar_of_isIdentifierStart valid.1
    · exact valid.2 c member

theorem exists_last_of_isIdentifier {name : String} (valid : isIdentifier name = true) :
    ∃ front c, name.toList = front ++ [c] ∧ isIdentifierChar c = true := by
  obtain ⟨first, others, same, -, inside⟩ := exists_of_isIdentifier valid
  have nonempty : name.toList ≠ [] := by
    rw [same]
    exact List.cons_ne_nil first others
  refine ⟨name.toList.dropLast, name.toList.getLast nonempty, ?_, inside _ (List.getLast_mem nonempty)⟩
  exact (List.dropLast_concat_getLast nonempty).symm

/-- The longest word at a place where one may start is an identifier. -/
theorem isIdentifier_takeWhile {cs : List Char}
    (starts : (cs.head?.map isIdentifierStart).getD false = true) :
    isIdentifier (String.ofList (cs.takeWhile isIdentifierChar)) = true := by
  cases cs with
  | nil => simp at starts
  | cons first others =>
    have start : isIdentifierStart first = true := by simpa using starts
    rw [List.takeWhile_cons_of_pos (isIdentifierChar_of_isIdentifierStart start), isIdentifier,
      String.toList_ofList]
    simp [start]

theorem afterWord?_append {word : String} {tail : List Char} (stop : Stops isIdentifierChar tail) :
    afterWord? word (word.toList ++ tail) = some tail := by
  have starts : word.toList.isPrefixOf (word.toList ++ tail) = true :=
    List.isPrefixOf_iff_prefix.mpr (List.prefix_append _ _)
  unfold afterWord?
  rw [if_pos starts, List.drop_left]
  cases tail with
  | nil => rfl
  | cons c others => simp [stop c others rfl]

/-- A text starts with a reserved word exactly if that is its first word. -/
theorem isSome_afterWord?_iff {word : String} {cs : List Char}
    (inWord : word.toList.all isIdentifierChar = true) :
    (afterWord? word cs).isSome = true ↔ cs.takeWhile isIdentifierChar = word.toList := by
  constructor
  · intro starts
    obtain ⟨rest, found⟩ := Option.isSome_iff_exists.mp starts
    have whole := eq_append_of_afterWord? found
    have stop : Stops isIdentifierChar rest := by
      intro c others same
      subst same
      unfold afterWord? at found
      split at found
      · rw [whole, List.drop_left] at found
        cases inside : isIdentifierChar c with
        | false => rfl
        | true => simp [inside] at found
      · simp at found
    rw [whole, takeWhile_of_stops (List.all_eq_true.mp inWord) stop]
  · intro same
    have whole := List.takeWhile_append_dropWhile (p := isIdentifierChar) (l := cs)
    rw [← whole, same, afterWord?_append (stops_dropWhile _ _)]
    rfl

end ApiDef.Text
