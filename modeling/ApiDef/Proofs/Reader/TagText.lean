import ApiDef.Proofs.Reader.Words
set_option autoImplicit false

/-!
# Reading tags back

The items of a tag are read back one by one, and adding them to the bare tag rebuilds it, because the
options stand in ascending order.
-/

namespace ApiDef

open Text

theorem OptionTable.insertEntry_last {key value : String} {entries : List (String × String)}
    (before : ∀ entry ∈ entries, entry.1 < key) :
    insertEntry key value entries = entries ++ [(key, value)] := by
  induction entries with
  | nil => rfl
  | cons head others ih =>
    obtain ⟨headBefore, othersBefore⟩ := List.forall_mem_cons.mp before
    have notLess : ¬key < head.1 := String.lt_asymm headBefore
    have different : key ≠ head.1 := by
      intro same
      rw [same] at headBefore
      exact String.lt_irrefl _ headBefore
    rw [insertEntry, if_neg notLess, if_neg different, ih othersBefore, List.cons_append]

namespace Reader

def TagItem.text : TagItem → List Char
  | argument value => (quote value).toList
  | option key value => key.toList ++ ' ' :: '=' :: ' ' :: (quote value).toList

end Reader

namespace Tag

open Reader

/-- The arguments and options of a tag in the order in which they are written. -/
def items (tag : Tag) : List TagItem :=
  tag.arguments.map .argument ++ tag.options.entries.map fun entry => .option entry.1 entry.2

theorem toList_text (tag : Tag) :
    tag.text.toList = tag.name.toList ++ bracketed '(' ')' TagItem.text tag.items := by
  have texts : tag.itemTexts.map String.toList = tag.items.map TagItem.text := by
    simp [itemTexts, items, TagItem.text, Function.comp_def]
  have empty : (tag.arguments.isEmpty && tag.options.isEmpty) = tag.items.isEmpty := by
    cases arguments : tag.arguments <;> simp [items, OptionTable.isEmpty, arguments]
  rw [text, empty]
  cases same : tag.items with
  | nil => simp [bracketed]
  | cons first others =>
    rw [same, List.map_cons] at texts
    simp [bracketed, String.toList_intercalate, texts, intercalate_cons, List.flatMap_map]

theorem items_isWellFormed {tag : Tag} (valid : tag.isWellFormed = true) :
    ∀ item ∈ tag.items, item.isWellFormed = true := by
  simp only [isWellFormed, Bool.and_eq_true, List.all_eq_true] at valid
  intro item member
  rcases List.mem_append.mp member with isArgument | isOption
  · obtain ⟨value, -, rfl⟩ := List.mem_map.mp isArgument
    rfl
  · obtain ⟨entry, entryMember, rfl⟩ := List.mem_map.mp isOption
    exact valid.2 entry entryMember

theorem foldl_arguments (values : List String) (tag : Tag) :
    (values.map TagItem.argument).foldl TagItem.addTo tag
      = { tag with arguments := tag.arguments ++ values } := by
  induction values generalizing tag with
  | nil => simp
  | cons value others ih =>
    rw [List.map_cons, List.foldl_cons, ih]
    simp [TagItem.addTo, withArgument]

theorem foldl_options {entries : List (String × String)} {tag : Tag} {table : OptionTable}
    (same : table.entries = tag.options.entries ++ entries) :
    (entries.map fun entry => TagItem.option entry.1 entry.2).foldl TagItem.addTo tag
      = { tag with options := table } := by
  induction entries generalizing tag with
  | nil =>
    have equal : tag.options = table := OptionTable.ext (by rw [same, List.append_nil])
    rw [← equal]
    rfl
  | cons entry others ih =>
    have ascending := table.ascending
    rw [same] at ascending
    have before : ∀ earlier ∈ tag.options.entries, earlier.1 < entry.1 := by
      intro earlier member
      exact (List.pairwise_append.mp ascending).2.2 earlier member entry List.mem_cons_self
    rw [List.map_cons, List.foldl_cons, ih]
    · rfl
    · simp [TagItem.addTo, withOption, OptionTable.insert, OptionTable.insertEntry_last before, same]

/-- Adding its items to the bare tag rebuilds a tag. -/
theorem foldl_items (tag : Tag) : tag.items.foldl TagItem.addTo ⟨tag.name, [], ∅⟩ = tag := by
  rw [items, List.foldl_append, foldl_arguments]
  exact foldl_options rfl

end Tag

namespace Reader

theorem run_optionKey?_quote {start : Cursor} {value : String} {tail : List Char}
    (rest : start.rest = (quote value).toList ++ tail) :
    optionKey?.run start = .done none start [] := by
  have noWord : identifier?.run start = .done none start [] := by
    simp [identifier?, rest, quote, quoteChars, isIdentifierStart]
  apply run_attempt_none
  rw [run_andThen noWord]
  rfl

theorem solid_tagItem {item : TagItem} (valid : item.isWellFormed = true) (tail : List Char) :
    Solid (item.text ++ tail) := by
  cases item with
  | argument value => exact solid_quote value tail
  | option key value =>
    rw [TagItem.text, List.append_assoc]
    exact solid_identifier valid _

theorem head?_tagItem_ne {item : TagItem} (valid : item.isWellFormed = true) (tail : List Char) :
    (item.text ++ tail).head? ≠ some ')' := by
  cases item with
  | argument value => simp [TagItem.text, quote, quoteChars]
  | option key value =>
    rw [TagItem.text, List.append_assoc]
    exact head?_identifier_ne valid (by decide) _

theorem yields_tagItem {item : TagItem} (valid : item.isWellFormed = true) {start : Cursor}
    {tail : List Char} (rest : start.rest = item.text ++ tail) :
    tagItem.Yields start True (Gives item tail) := by
  cases item with
  | argument value =>
    refine yields_after (run_optionKey?_quote rest) ?_
    refine yields_after (run_literal_quote rest) ?_
    exact yields_pure ⟨rfl, rfl⟩
  | option key value =>
    rw [TagItem.text, List.append_assoc] at rest
    have stops : Stops isIdentifierChar (' ' :: '=' :: ' ' :: (quote value).toList ++ tail) :=
      stops_cons (by decide) _
    have equalsSolid : ∀ tail, Solid ('=' :: tail) := solid_cons (by decide)
    have keyYields : optionKey?.Yields start True
        (Gives (some key) (' ' :: (quote value).toList ++ tail)) := by
      refine Yields.attempt ?_
      refine yields_after (run_identifier? rest valid stops) ?_
      refine yields_after (skipsGaps_skipBlanks.space rfl (equalsSolid _)) ?_
      refine yields_after (run_eat rfl) ?_
      exact yields_pure ⟨rfl, rfl⟩
    refine keyYields.andThen fun found after got => ?_
    obtain ⟨rfl, afterRest⟩ := got
    refine yields_after (skipsGaps_skipBlanks.space afterRest (solid_quote value tail)) ?_
    refine yields_after (run_literal_quote rfl) ?_
    exact yields_pure ⟨rfl, rfl⟩

theorem yields_tagItems {items : List TagItem} (valid : ∀ item ∈ items, item.isWellFormed = true)
    {start : Cursor} {tail : List Char}
    (rest : start.rest = bracketed '(' ')' TagItem.text items ++ tail)
    (notOpen : tail.head? ≠ some '(') : tagItems.Yields start True (Gives items tail) := by
  cases items with
  | nil =>
    refine yields_after (run_eat_other (by rw [rest]; exact notOpen)) ?_
    exact yields_pure ⟨rfl, rest⟩
  | cons first others =>
    have opened : start.rest = '(' :: (first.text
        ++ (others.flatMap (fun item => ',' :: ' ' :: item.text) ++ ')' :: tail)) := by
      simp [rest, bracketed]
    have solid := solid_tagItem (valid first List.mem_cons_self)
    have notClosed := head?_tagItem_ne (valid first List.mem_cons_self)
    refine yields_after (run_eat opened) ?_
    refine yields_after (skipsGaps_skipBlanks.nothing rfl (solid _)) ?_
    refine yields_after (run_eat_other (notClosed _)) ?_
    have closeSolid : ∀ tail, Solid (')' :: tail) := solid_cons (by decide)
    have reads : ∀ item ∈ first :: others,
        ReadsItem ⟨tagItem, advances_tagItem⟩ ')' id TagItem.text (fun _ => True) item := by
      intro item member
      refine ⟨solid_tagItem (valid item member), fun start tail rest _ => ?_⟩
      exact yields_tagItem (valid item member) rest
    have all : (∀ item ∈ first :: others, True) ↔ True := by simp
    refine ((yields_separated skipsGaps_skipBlanks closeSolid (by decide) reads blank_nil rfl).mono
      ?_).of_iff all
    intro values after facts
    rw [List.map_id] at facts
    exact facts

theorem exists_of_tag {tag : Tag} (valid : tag.isWellFormed = true) :
    ∃ name, tag.name = "@" ++ name ∧ isIdentifier name = true := by
  simp only [Tag.isWellFormed, Bool.and_eq_true] at valid
  obtain ⟨validName, -⟩ := valid
  split at validName
  next name same =>
    refine ⟨String.ofList name, ?_, validName⟩
    rw [← String.toList_inj, String.toList_append, String.toList_ofList]
    simp [same]
  next => cases validName

theorem tagText_eq {tag : Tag} {name : String} (same : tag.name = "@" ++ name) (tail : List Char) :
    tag.text.toList ++ tail
      = '@' :: (name.toList ++ (bracketed '(' ')' TagItem.text tag.items ++ tail)) := by
  rw [Tag.toList_text, same, String.toList_append, List.append_assoc, List.append_assoc]
  exact List.singleton_append

theorem yields_tagBody {tag : Tag} (valid : tag.isWellFormed = true) {name : String}
    (same : tag.name = "@" ++ name) (validName : isIdentifier name = true) {start : Cursor}
    {tail : List Char}
    (rest : start.rest = name.toList ++ (bracketed '(' ')' TagItem.text tag.items ++ tail))
    (stops : Stops isIdentifierChar tail) (notOpen : tail.head? ≠ some '(') :
    tagBody.Yields start True (Gives tag tail) := by
  have notWord : isIdentifierChar '(' = false := by decide
  refine yields_after (run_identifier rest validName
    (stops_bracketed notWord ')' TagItem.text tag.items stops)) ?_
  refine (yields_tagItems (Tag.items_isWellFormed valid) rfl notOpen).andThen ?_
  intro items after got
  obtain ⟨rfl, afterRest⟩ := got
  refine yields_pure ⟨?_, afterRest⟩
  rw [← same]
  exact Tag.foldl_items tag

/-- Tags are read back if blanks stand behind each of them. -/
theorem yields_tags {found : List Tag} (valid : ∀ tag ∈ found, tag.isWellFormed = true)
    {gap : List Char} (gapNonempty : gap ≠ []) (gapBlank : ∀ c ∈ gap, isBlank c = true)
    {start : Cursor} {blanks tail : List Char} (allBlank : ∀ c ∈ blanks, isBlank c = true)
    (solid : Solid tail) (notTag : tail.head? ≠ some '@')
    (rest : start.rest = blanks ++ (found.flatMap (fun tag => tag.text.toList ++ gap) ++ tail)) :
    tags.Yields start True fun result after =>
      result.map (·.1) = found ∧ after.rest = tail := by
  induction found generalizing start blanks with
  | nil =>
    refine yields_rounds_stop ?_
    refine yields_after (run_skipTrivia rest allBlank solid) ?_
    refine yields_after (run_here _) ?_
    refine yields_after (run_eat_other notTag) ?_
    exact yields_pure ⟨[], rfl, rfl, rfl⟩
  | cons tag others ih =>
    have validTag := valid tag List.mem_cons_self
    obtain ⟨name, same, validName⟩ := exists_of_tag validTag
    rw [List.flatMap_cons, List.append_assoc, List.append_assoc, tagText_eq same] at rest
    have tagSolid : ∀ tail, Solid ('@' :: tail) := solid_cons (by decide)
    refine (yields_rounds_next ?_).of_iff (iff_of_eq (true_and True))
    refine yields_after (run_skipTrivia rest allBlank (tagSolid _)) ?_
    refine yields_after (run_here _) ?_
    refine yields_after (run_eat rfl) ?_
    refine (yields_tagBody validTag same validName rfl (stops_blanks gapNonempty gapBlank _)
      (head?_blanks_ne gapNonempty gapBlank (by decide) _)).andThen fun result after got => ?_
    obtain ⟨rfl, afterRest⟩ := got
    refine yields_after (run_here _) ?_
    refine yields_pure ⟨_, (), rfl, ?_⟩
    refine (ih (fun tag member => valid tag (List.mem_cons_of_mem _ member)) gapBlank afterRest).mono ?_
    intro values final facts
    refine ⟨?_, facts.2⟩
    rw [List.map_append, facts.1]
    rfl

end Reader

end ApiDef
