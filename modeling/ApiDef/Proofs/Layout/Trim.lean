import ApiDef.Proofs.Reader.DocumentText
set_option autoImplicit false

/-!
# Trimming the layout

Every block but a comment starts and ends with a character that is no blank, so trimming the layout
of entities is trimming the comment at its end.
-/

namespace ApiDef

open Text

theorem Text.trimEnd_append {left right : List Char} (nonempty : trimEnd right ≠ []) :
    trimEnd (left ++ right) = left ++ trimEnd right := by
  have notEmpty : (right.reverse.dropWhile isBlank).isEmpty = false := by
    cases dropped : right.reverse.dropWhile isBlank with
    | nil => exact absurd (by rw [trimEnd, dropped, List.reverse_nil]) nonempty
    | cons c others => rfl
  rw [trimEnd, List.reverse_append, List.dropWhile_append, notEmpty]
  simp [trimEnd]

theorem Text.trimEnd_last {front : List Char} {c : Char} (notBlank : isBlank c = false) :
    trimEnd (front ++ [c]) = front ++ [c] := by
  rw [trimEnd, List.reverse_append, List.reverse_singleton, List.singleton_append,
    List.dropWhile_cons_of_neg (by rw [notBlank]; decide), List.reverse_cons, List.reverse_reverse]

theorem Text.trimStart_trimEnd_trimStart (cs : List Char) :
    trimStart (trimEnd (trimStart cs)) = trimEnd (trimStart cs) := by
  refine trimStart_of_stops fun c others same => ?_
  obtain ⟨blanks, whole⟩ : trimEnd (trimStart cs) <+: trimStart cs := by
    rw [trimEnd, ← List.reverse_suffix, List.reverse_reverse]
    exact List.dropWhile_suffix isBlank
  rw [same] at whole
  exact stops_dropWhile isBlank cs c (others ++ blanks) whole.symm

theorem Text.trimEnd_trimEnd (cs : List Char) : trimEnd (trimEnd cs) = trimEnd cs := by
  rw [trimEnd, trimEnd, List.reverse_reverse]
  exact congrArg List.reverse (dropWhile_of_stops blank_nil (stops_dropWhile isBlank cs.reverse))

theorem Text.trimStart_trimEnd_cons {c : Char} (blank : isBlank c = true) (cs : List Char) :
    trimStart (trimEnd (c :: cs)) = trimStart (trimEnd cs) := by
  by_cases empty : trimEnd cs = []
  · have dropped : cs.reverse.dropWhile isBlank = [] := List.reverse_eq_nil_iff.mp empty
    rw [empty, trimEnd, List.reverse_cons, List.dropWhile_append, dropped]
    simp [trimStart, blank]
  · have split : trimEnd ([c] ++ cs) = [c] ++ trimEnd cs := trimEnd_append empty
    rw [List.singleton_append] at split
    rw [split, trimStart, List.singleton_append, List.dropWhile_cons_of_pos blank, trimStart]

theorem Text.mem_of_mem_trimEnd {c : Char} {cs : List Char} (member : c ∈ trimEnd cs) : c ∈ cs := by
  rw [trimEnd, List.mem_reverse] at member
  exact List.mem_reverse.mp ((List.dropWhile_suffix isBlank).subset member)

/-- A text whose last character is no blank. -/
def ClosesSolid (text : List Char) : Prop :=
  ∃ front c, text = front ++ [c] ∧ isBlank c = false

theorem ClosesSolid.append {text : List Char} (closes : ClosesSolid text) (before : List Char) :
    ClosesSolid (before ++ text) := by
  obtain ⟨front, c, rfl, notBlank⟩ := closes
  exact ⟨before ++ front, c, by rw [List.append_assoc], notBlank⟩

theorem ClosesSolid.cons {text : List Char} (closes : ClosesSolid text) (first : Char) :
    ClosesSolid (first :: text) :=
  closes.append [first]

theorem closesSolid_singleton {c : Char} (notBlank : isBlank c = false) : ClosesSolid [c] :=
  ⟨[], c, rfl, notBlank⟩

theorem closesSolid_identifier {name : String} (valid : isIdentifier name = true) :
    ClosesSolid name.toList := by
  obtain ⟨front, c, same, inside⟩ := exists_last_of_isIdentifier valid
  exact ⟨front, c, same, Reader.not_isBlank_of_isIdentifierChar inside⟩

theorem closesSolid_typeText {type : TypeRef} (valid : type.isWellFormed = true) :
    ClosesSolid type.text.toList := by
  obtain ⟨name, isList, generics⟩ := type
  rw [TypeRef.isWellFormed, Bool.and_eq_true] at valid
  rw [TypeRef.toList_text]
  cases isList with
  | true =>
    have bracket : ClosesSolid ['[', ']'] := (closesSolid_singleton (by decide)).cons '['
    exact (bracket.append _).append _
  | false =>
    cases generics with
    | nil => simpa [Reader.bracketed, TypeRef.listMark] using closesSolid_identifier valid.1
    | cons first others =>
      have angle : ClosesSolid ['>'] := closesSolid_singleton (by decide)
      simp only [Reader.bracketed, TypeRef.listMark, Bool.false_eq_true, if_false,
        String.toList_empty, List.append_nil]
      exact (((angle.append _).append _).cons '<').append _

namespace Layout

theorem closesSolid_bodyText (indentation : Indentation) (depth : Nat) (members : List Property) :
    ClosesSolid (bodyText indentation depth members) := by
  have brace : ClosesSolid ['}'] := closesSolid_singleton (by decide)
  cases members with
  | nil => exact brace
  | cons first others => exact ((brace.append _).append _).cons '\n'

theorem closesSolid_valuesText (indentation : Indentation) (values : List String) :
    ClosesSolid (valuesText indentation values) := by
  have brace : ClosesSolid ['}'] := closesSolid_singleton (by decide)
  cases values with
  | nil => exact brace
  | cons first others => exact ((((brace.cons '\n').append _).append _).append _).cons '\n'

theorem closesSolid_block {entity : Entity} (notComment : entity.isComment = false)
    (valid : entity.isWellFormed = true) (indentation : Indentation) :
    ClosesSolid (block indentation entity).toList := by
  rw [toList_block notComment]
  refine ClosesSolid.append ?_ _
  cases entity with
  | comment text => cases notComment
  | enumeration declared =>
    exact ((((closesSolid_valuesText _ _).cons '{').cons ' ').append _).cons ' ' |>.append _
  | dataType declared => exact (((closesSolid_bodyText _ _ _).cons '{').cons ' ').append _
  | method declared =>
    rw [Entity.isWellFormed, Bool.and_eq_true] at valid
    exact ((((closesSolid_typeText valid.2).cons ':').cons ')').append _ |>.cons '(').append _

theorem trimEnd_block_comment (indentation : Indentation) (text : String) :
    trimEnd (block indentation (.comment text)).toList
      = (block indentation (.comment (String.ofList (trimEnd text.toList)))).toList := by
  have hash : trimEnd ['#'] = ['#'] := by decide
  rw [toList_comment, toList_comment, ← List.singleton_append]
  by_cases empty : trimEnd text.toList = []
  · have dropped : text.toList.reverse.dropWhile isBlank = [] := List.reverse_eq_nil_iff.mp empty
    rw [empty, trimEnd, List.reverse_append, List.dropWhile_append, dropped]
    exact hash
  · simp only [String.toList_ofList]
    exact trimEnd_append empty

end Layout

namespace Entity

/-- The last entity is trimmed if it is a comment. -/
def trimLast : List Entity → List Entity
  | [] => []
  | [comment text] => [comment (String.ofList (trimEnd text.toList))]
  | entity :: others => entity :: trimLast others

theorem map_trimLast {β : Type} {f : Entity → β}
    (same : ∀ text, f (comment (String.ofList (trimEnd text.toList))) = f (comment text))
    (entities : List Entity) : (trimLast entities).map f = entities.map f := by
  fun_induction trimLast entities with
  | case1 => rfl
  | case2 text => rw [List.map_singleton, List.map_singleton, same]
  | case3 entity others notLast ih => rw [List.map_cons, List.map_cons, ih]

theorem forall_mem_trimLast {holds : Entity → Prop}
    (trims : ∀ text, holds (comment text) → holds (comment (String.ofList (trimEnd text.toList))))
    {entities : List Entity} (all : ∀ entity ∈ entities, holds entity) :
    ∀ entity ∈ trimLast entities, holds entity := by
  fun_induction trimLast entities with
  | case1 => exact all
  | case2 text =>
    intro entity member
    rw [List.mem_singleton.mp member]
    exact trims text (all _ List.mem_cons_self)
  | case3 entity others notLast ih =>
    obtain ⟨first, rest⟩ := List.forall_mem_cons.mp all
    exact List.forall_mem_cons.mpr ⟨first, ih rest⟩

theorem isWellFormed_trimLast {entities : List Entity}
    (valid : ∀ entity ∈ entities, entity.isWellFormed = true) :
    ∀ entity ∈ trimLast entities, entity.isWellFormed = true := by
  refine forall_mem_trimLast (fun text wellFormed => ?_) valid
  rw [isWellFormed_comment_iff, String.toList_ofList]
  exact fun member => isWellFormed_comment_iff.mp wellFormed (mem_of_mem_trimEnd member)

theorem trimLast_ne_nil {entities : List Entity} (nonempty : entities ≠ []) :
    trimLast entities ≠ [] := by
  fun_induction trimLast entities with
  | case1 => exact absurd rfl nonempty
  | case2 text => exact List.cons_ne_nil _ _
  | case3 entity others notLast ih => exact List.cons_ne_nil _ _

theorem getLast?_trimEnd_ne (cs : List Char) : (trimEnd cs).getLast? ≠ some '\r' := by
  intro last
  rw [trimEnd, List.getLast?_reverse] at last
  obtain ⟨others, same⟩ := List.head?_eq_some_iff.mp last
  have stop := stops_dropWhile isBlank cs.reverse '\r' others same
  exact absurd stop (by decide)

theorem getLast?_trimLast_ne (entities : List Entity) (text : String)
    (last : (trimLast entities).getLast? = some (comment text)) :
    text.toList.getLast? ≠ some '\r' := by
  fun_induction trimLast entities with
  | case1 => cases last
  | case2 whole =>
    rw [List.getLast?_singleton] at last
    rw [← Entity.comment.inj (Option.some.inj last), String.toList_ofList]
    exact getLast?_trimEnd_ne whole.toList
  | case3 entity others notLast ih =>
    cases others with
    | nil => exact absurd rfl (notLast text (Option.some.inj last))
    | cons second later =>
      obtain ⟨first, behind, same⟩ := List.exists_cons_of_ne_nil
        (trimLast_ne_nil (List.cons_ne_nil second later))
      rw [same, List.getLast?_cons_cons, ← same] at last
      exact ih last

/-- Reading takes nothing more from a comment that was trimmed. -/
theorem map_reread_trimLast (entities : List Entity) :
    (trimLast entities).map reread = rereadAll entities := by
  fun_induction rereadAll entities with
  | case1 => rfl
  | case2 text =>
    rw [trimLast, List.map_singleton, reread, rereadLine, String.toList_ofList,
      dropCarriageReturn_of_getLast?_ne (getLast?_trimEnd_ne text.toList)]
  | case3 entity others notLast ih =>
    rw [trimLast, List.map_cons, ih]
    exact notLast

/-- What was reread is trimmed. -/
theorem trimLast_rereadAll (entities : List Entity) :
    trimLast (rereadAll entities) = rereadAll entities := by
  fun_induction rereadAll entities with
  | case1 => rfl
  | case2 text => rw [trimLast, String.toList_ofList, trimEnd_trimEnd]
  | case3 entity others notLast ih =>
    rw [trimLast, ih]
    intro text isComment none
    cases others with
    | nil =>
      cases entity with
      | comment text => exact notLast text rfl rfl
      | enumeration declared => cases isComment
      | dataType declared => cases isComment
      | method declared => cases isComment
    | cons second later =>
      rw [← map_reread_trimLast] at none
      exact trimLast_ne_nil (List.cons_ne_nil second later) (List.map_eq_nil_iff.mp none)

end Entity

namespace Layout

open Reader

/-- Trimming the blocks of entities trims the last one if it is a comment. -/
theorem trimEnd_blocksText (indentation : Indentation) {entities : List Entity}
    (valid : ∀ entity ∈ entities, entity.isWellFormed = true) :
    trimEnd (blocksText indentation entities)
      = blocksText indentation (Entity.trimLast entities) := by
  -- Trimming stops in the last block, which never vanishes: a declaration ends in something solid,
  -- and of a comment the mark is left.
  fun_induction Entity.trimLast entities with
  | case1 => rfl
  | case2 text =>
    have nonempty : trimEnd (block indentation (.comment text)).toList ≠ [] := by
      rw [trimEnd_block_comment, toList_comment]
      exact List.cons_ne_nil _ _
    rw [blocksText_cons, blocksText_cons]
    simp only [blocksText, List.flatMap_nil, List.append_nil]
    have split : trimEnd (['\n', '\n'] ++ (block indentation (.comment text)).toList)
        = ['\n', '\n'] ++ trimEnd (block indentation (.comment text)).toList :=
      trimEnd_append nonempty
    rw [trimEnd_block_comment] at split
    exact split
  | case3 entity others notLast ih =>
    obtain ⟨validEntity, validOthers⟩ := List.forall_mem_cons.mp valid
    cases others with
    | nil =>
      have notComment : entity.isComment = false := by
        cases isComment : entity.isComment with
        | false => rfl
        | true =>
          obtain ⟨text, same⟩ := exists_of_isComment isComment
          exact absurd rfl (notLast text same)
      obtain ⟨front, c, same, notBlank⟩ := closesSolid_block notComment validEntity indentation
      have alone : blocksText indentation [entity] = ('\n' :: '\n' :: front) ++ [c] := by
        rw [blocksText_cons, same]
        simp [blocksText]
      rw [Entity.trimLast, alone]
      exact trimEnd_last notBlank
    | cons second later =>
      have trimmed := ih validOthers
      have nonempty : trimEnd (blocksText indentation (second :: later)) ≠ [] := by
        obtain ⟨first, rest, same⟩ := List.exists_cons_of_ne_nil
          (Entity.trimLast_ne_nil (List.cons_ne_nil second later))
        rw [trimmed, same, blocksText_cons]
        exact List.cons_ne_nil _ _
      have split : trimEnd (('\n' :: '\n' :: (block indentation entity).toList)
            ++ blocksText indentation (second :: later))
          = ('\n' :: '\n' :: (block indentation entity).toList)
            ++ trimEnd (blocksText indentation (second :: later)) := trimEnd_append nonempty
      rw [trimmed] at split
      rw [blocksText_cons, blocksText_cons]
      exact split

/-- The blocks of entities stand in the layout, but for what is trimmed. -/
theorem trimStart_write (indentation : Indentation) {entities : List Entity}
    (valid : ∀ entity ∈ entities, entity.isWellFormed = true) :
    trimStart (write indentation entities).toList
      = trimStart (blocksText indentation (Entity.trimLast entities)) := by
  cases entities with
  | nil => rfl
  | cons first others =>
    have validFirst := valid first List.mem_cons_self
    have joined : (String.intercalate "\n\n" ((first :: others).map (block indentation))).toList
        = (block indentation first).toList ++ blocksText indentation others := by
      rw [String.toList_intercalate, List.map_cons, List.map_cons, intercalate_cons, List.map_map,
        List.flatMap_map]
      rfl
    have solid : trimStart ((block indentation first).toList ++ blocksText indentation others)
        = (block indentation first).toList ++ blocksText indentation others :=
      trimStart_of_stops (stops_block validFirst _)
    rw [write, trim, joined, solid, String.toList_ofList, ← trimEnd_blocksText indentation valid,
      blocksText_cons, trimStart_trimEnd_cons isBlank_lineFeed, trimStart_trimEnd_cons isBlank_lineFeed]

theorem toList_write {indentation : Indentation} {entities : List Entity}
    (valid : ∀ entity ∈ entities, entity.isWellFormed = true) :
    (write indentation entities).toList
      = trimStart (blocksText indentation (Entity.trimLast entities)) := by
  rw [← trimStart_write indentation valid, write, trim, String.toList_ofList,
    trimStart_trimEnd_trimStart]

end Layout

end ApiDef
