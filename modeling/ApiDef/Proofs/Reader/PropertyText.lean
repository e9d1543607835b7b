import ApiDef.Proofs.Layout.Chars
import ApiDef.Proofs.Reader.DescriptionText
import ApiDef.Proofs.Reader.TagText
import ApiDef.Proofs.Reader.TypeText
set_option autoImplicit false

/-!
# Reading properties back

The rounds of a body go through its members: the lines of a description, then the property they
describe. A body is read back exactly if it fits into the levels that are left.
-/

namespace ApiDef.Reader

open Text Layout

/-!
## Where a construct starts
-/

/-- A tag or a name stands at the start of a text. -/
def Opens (text : List Char) : Prop :=
  ∃ c others, text = c :: others ∧ (c = '@' ∨ isIdentifierStart c = true)

theorem opens_tags {tags : List Tag} (valid : ∀ tag ∈ tags, tag.isWellFormed = true) {name : String}
    (validName : isIdentifier name = true) (gap tail : List Char) :
    Opens (tags.flatMap (fun tag => tag.text.toList ++ gap) ++ (name.toList ++ tail)) := by
  cases tags with
  | nil =>
    obtain ⟨first, others, same, starts⟩ := isIdentifier_append validName tail
    exact ⟨first, others, same, .inr starts⟩
  | cons tag others =>
    obtain ⟨tagName, same, -⟩ := exists_of_tag (valid tag List.mem_cons_self)
    rw [List.flatMap_cons, List.append_assoc, List.append_assoc, tagText_eq same]
    exact ⟨'@', _, rfl, .inl rfl⟩

theorem Opens.solid {text : List Char} (opens : Opens text) : Solid text := by
  obtain ⟨c, others, rfl, same | starts⟩ := opens
  · subst same
    exact solid_cons (by decide) others
  · exact solid_of_isIdentifierChar (isIdentifierChar_of_isIdentifierStart starts) others

theorem Opens.startsDeclaration {text : List Char} (opens : Opens text) :
    startsDeclaration text = true := by
  obtain ⟨c, others, rfl, same | starts⟩ := opens
  · subst same
    rfl
  · have inside := isIdentifierChar_of_isIdentifierStart starts
    simp [Reader.startsDeclaration, inside]

theorem Opens.head?_ne {text : List Char} (opens : Opens text) {c : Char} (notTag : c ≠ '@')
    (notStart : isIdentifierStart c = false) : text.head? ≠ some c := by
  obtain ⟨first, others, rfl, same | starts⟩ := opens
  · intro equal
    exact notTag ((Option.some.inj equal).symm.trans same)
  · intro equal
    rw [Option.some.inj equal, notStart] at starts
    cases starts

/-- A description, a tag or a name stands above a construct or at its start. -/
theorem exists_of_above (margin : List Char) (description : Option String) {tags : List Tag}
    (valid : ∀ tag ∈ tags, tag.isWellFormed = true) {name : String}
    (validName : isIdentifier name = true) (tail : List Char) :
    ∃ c others, above margin description tags ++ (name.toList ++ tail) = c :: others
      ∧ (c = '/' ∨ c = '@' ∨ isIdentifierStart c = true) := by
  rw [above]
  cases descriptionLines description with
  | nil =>
    obtain ⟨c, others, same, starts⟩ := opens_tags valid validName ('\n' :: margin) tail
    exact ⟨c, others, same, .inr starts⟩
  | cons line lines => exact ⟨'/', _, rfl, .inl rfl⟩

theorem stops_above (margin : List Char) (description : Option String) {tags : List Tag}
    (valid : ∀ tag ∈ tags, tag.isWellFormed = true) {name : String}
    (validName : isIdentifier name = true) (tail : List Char) :
    Stops isBlank (above margin description tags ++ (name.toList ++ tail)) := by
  obtain ⟨c, others, same, slash | tag | starts⟩ :=
    exists_of_above margin description valid validName tail
  · rw [same, slash]
    exact stops_cons (by decide) others
  · rw [same, tag]
    exact stops_cons (by decide) others
  · rw [same]
    exact stops_cons
      (not_isBlank_of_isIdentifierChar (isIdentifierChar_of_isIdentifierStart starts)) others

/-!
## The parts of a property
-/

theorem yields_defaultValue? {defaultValue : Option String} (valid : defaultValue.all isLiteral = true)
    {start : Cursor} {tail : List Char}
    (rest : start.rest = (defaultText defaultValue).toList ++ tail) (delimits : Delimits tail)
    (notAssigned : (trimStart tail).head? ≠ some '=') :
    defaultValue?.Yields start True (Gives defaultValue tail) := by
  cases defaultValue with
  | none =>
    have other : start.landed.rest.head? ≠ some '=' := by
      intro same
      exact notAssigned (by rw [← same, Cursor.landed, rest]; rfl)
    have noValue : (do
        skipBlanks
        if ← eat '=' then pure (some ()) else pure none).run start = .done none start.landed [] := by
      rw [run_andThen (run_skipBlanks_landed start), run_andThen (run_eat_other other)]
      rfl
    refine yields_after (run_attempt_none noValue) ?_
    exact yields_pure ⟨rfl, rest⟩
  | some value =>
    obtain ⟨literal, scanned⟩ := exists_scan_of_isLiteral valid delimits
    have whole : start.rest = ' ' :: '=' :: ' ' :: (value.toList ++ tail) := by
      rw [rest, toList_defaultText_some]
      rfl
    have equalsSolid : ∀ tail, Solid ('=' :: tail) := solid_cons (by decide)
    have assigned : (attempt do
        skipBlanks
        if ← eat '=' then pure (some ()) else pure none).Yields start True
          (Gives (some ()) (' ' :: (value.toList ++ tail))) := by
      refine Yields.attempt ?_
      refine yields_after (skipsGaps_skipBlanks.space whole (equalsSolid _)) ?_
      refine yields_after (run_eat rfl) ?_
      exact yields_pure ⟨rfl, rfl⟩
    refine assigned.andThen fun found after got => ?_
    obtain ⟨rfl, afterRest⟩ := got
    refine yields_after (skipsGaps_skipBlanks.space afterRest (solid_of_scan scanned)) ?_
    refine yields_after (run_literal scanned) ?_
    exact yields_pure ⟨by rw [String.ofList_toList], rfl⟩

theorem solid_shapeText {indentation : Indentation} {depth : Nat} {property : Property}
    (valid : property.isWellFormed = true) (tail : List Char) :
    Solid (shapeText indentation depth property ++ tail) := by
  cases property with
  | plain field =>
    simp only [Property.isWellFormed, Field.isWellFormed, Bool.and_eq_true] at valid
    exact solid_typeText valid.1.1.2 tail
  | inline field members =>
    rw [shapeText]
    split
    · exact solid_cons (by decide) _
    · exact solid_cons (by decide) _

/-- What may stand behind a property: its line ends, and nothing behind that goes on with it. -/
structure EndsProperty (tail : List Char) : Prop where
  lineFeed : ∃ others, tail = '\n' :: others
  goesOn : ∀ c ∈ ['=', ',', ';'], (trimStart tail).head? ≠ some c

theorem stops_memberText {indentation : Indentation} {depth : Nat} {member : Property}
    (valid : member.isWellFormed = true) (tail : List Char) :
    Stops isBlank (memberText indentation depth member ++ tail) := by
  obtain ⟨validName, validTags, -⟩ := member.isWellFormed_field valid
  rw [memberText, List.append_assoc, List.append_assoc]
  exact stops_above _ _ validTags validName _

/-- Behind the blanks of its margin the first member starts. -/
theorem trimStart_membersText_cons {indentation : Indentation} {depth : Nat} {member : Property}
    (valid : member.isWellFormed = true) (others : List Property) (tail : List Char) :
    trimStart (membersText indentation depth (member :: others) ++ tail)
      = memberText indentation depth member
        ++ '\n' :: (membersText indentation depth others ++ tail) := by
  rw [membersText, List.flatMap_cons, List.append_assoc, List.append_assoc, trimStart,
    dropWhile_of_stops Indentation.isBlank_margin]
  · simp [membersText]
  · rw [List.append_assoc]
    exact stops_memberText valid _

theorem trimStart_close {outer : List Char} (outerBlank : ∀ c ∈ outer, isBlank c = true)
    (tail : List Char) : trimStart (outer ++ '}' :: tail) = '}' :: tail :=
  dropWhile_of_stops outerBlank (stops_cons (by decide) tail)

/-- Behind the blanks a member starts, or the body is closed. -/
theorem exists_of_membersText (indentation : Indentation) (depth : Nat) {members : List Property}
    (valid : Property.areWellFormed members = true) {outer : List Char}
    (outerBlank : ∀ c ∈ outer, isBlank c = true) (tail : List Char) :
    ∃ c others, trimStart ('\n' :: (membersText indentation depth members ++ (outer ++ '}' :: tail)))
        = c :: others
      ∧ (c = '}' ∨ c = '/' ∨ c = '@' ∨ isIdentifierStart c = true) := by
  rw [trimStart_lineFeed]
  cases members with
  | nil =>
    rw [membersText, List.flatMap_nil, List.nil_append, trimStart_close outerBlank]
    exact ⟨'}', tail, rfl, .inl rfl⟩
  | cons first others =>
    have validFirst := Property.areWellFormed_iff.mp valid first List.mem_cons_self
    obtain ⟨validName, validTags, -⟩ := first.isWellFormed_field validFirst
    rw [trimStart_membersText_cons validFirst, memberText, List.append_assoc, List.append_assoc]
    obtain ⟨c, rest, same, starts⟩ := exists_of_above
      (indentation.margin depth).toList first.field.description validTags validName _
    exact ⟨c, rest, same, .inr starts⟩

/-- Neither a member nor the end of a body goes on with a property. -/
theorem endsProperty_membersText (indentation : Indentation) (depth : Nat) {members : List Property}
    (valid : Property.areWellFormed members = true) {outer : List Char}
    (outerBlank : ∀ c ∈ outer, isBlank c = true) (tail : List Char) :
    EndsProperty ('\n' :: (membersText indentation depth members ++ (outer ++ '}' :: tail))) := by
  refine ⟨⟨_, rfl⟩, fun c member => ?_⟩
  obtain ⟨start, rest, same, starts⟩ := exists_of_membersText indentation depth valid outerBlank tail
  have others : ['=', ',', ';'].all (fun c => c ≠ '}' && c ≠ '/' && c ≠ '@' && !isIdentifierStart c)
      = true := by
    decide
  have other := List.all_eq_true.mp others c member
  simp only [Bool.and_eq_true, decide_eq_true_eq, Bool.not_eq_true'] at other
  obtain ⟨⟨⟨notBrace, notSlash⟩, notTag⟩, notStart⟩ := other
  rw [same, List.head?_cons]
  intro equal
  obtain rfl := Option.some.inj equal
  rcases starts with brace | slash | tag | starts
  · exact notBrace brace
  · exact notSlash slash
  · exact notTag tag
  · rw [notStart] at starts
    cases starts

section

variable {indentation : Indentation} {limit levels depth : Nat}
  {inner : Unit → Reader (List Property)}
  (readsInner : ∀ {members : List Property} {start : Cursor} {tail : List Char},
    Property.areWellFormed members = true →
    start.rest = bodyText indentation depth members ++ tail →
    (inner ()).Yields start (Property.bodyNesting members ≤ levels)
      (Gives (Property.rereadAll members) tail))

include readsInner

theorem yields_propertyShape {property : Property} (valid : property.isWellFormed = true)
    {start : Cursor} {tail : List Char}
    (rest : start.rest = shapeText indentation depth property ++ tail) (ends : EndsType tail) :
    (propertyShape (typeRef limit (levels + 1)) inner).Yields start (property.nesting ≤ levels)
      (Gives (property.field.type, property.reread.properties?) tail) := by
  cases property with
  | plain field =>
    simp only [Property.isWellFormed, Field.isWellFormed, Bool.and_eq_true] at valid
    obtain ⟨⟨⟨-, validType⟩, -⟩, -⟩ := valid
    obtain ⟨first, others, same, starts⟩ := exists_of_typeText validType tail
    have other : ∀ c, isIdentifierStart c = false → start.rest.head? ≠ some c := by
      intro c notStart equal
      rw [rest, shapeText, same] at equal
      rw [Option.some.inj equal, notStart] at starts
      cases starts
    refine yields_after (run_eat_other (other '{' (by decide))) ?_
    refine yields_after (run_eat_other (other '[' (by decide))) ?_
    have typeYields := yields_typeRef limit (levels + 1) validType rest ends
    have fits : field.type.nesting < levels + 1 ↔ (Property.plain field).nesting ≤ levels := by
      rw [Property.nesting, Nat.lt_succ_iff]
    refine (typeYields.spanned.of_iff fits).finally fun found after got => ?_
    obtain ⟨type, place⟩ := found
    obtain ⟨rfl, afterRest⟩ := got
    refine yields_after (run_ask _ after) ?_
    exact yields_pure ⟨rfl, afterRest⟩
  | inline field members =>
    simp only [Property.isWellFormed, Bool.and_eq_true] at valid
    obtain ⟨⟨-, isObject⟩, validMembers⟩ := valid
    have object := TypeRef.eq_of_isObject isObject
    rw [shapeText] at rest
    change (propertyShape _ inner).Yields start (Property.bodyNesting members ≤ levels)
      (Gives (field.type, some (Property.rereadAll members)) tail)
    cases isList : field.type.isList with
    | false =>
      simp only [isList, Bool.false_eq_true, if_false] at rest
      refine yields_after (run_eat rest) ?_
      refine (readsInner validMembers rfl).finally fun properties after got => ?_
      obtain ⟨rfl, afterRest⟩ := got
      rw [object, isList]
      exact yields_pure ⟨rfl, afterRest⟩
    | true =>
      simp only [isList, if_true, List.cons_append, List.append_assoc] at rest
      refine yields_after (run_eat_other (rest ▸ head?_cons_ne (by decide) _)) ?_
      refine yields_after (run_eat rest) ?_
      have braceSolid : ∀ tail, Solid ('{' :: tail) := solid_cons (by decide)
      have bracketSolid : ∀ tail, Solid (']' :: tail) := solid_cons (by decide)
      refine yields_after (skipsGaps_skipBlanks.nothing rfl (braceSolid _)) ?_
      refine yields_after (run_require rfl) ?_
      refine (readsInner validMembers rfl).finally fun properties after got => ?_
      obtain ⟨rfl, afterRest⟩ := got
      refine yields_after (skipsGaps_skipBlanks.nothing afterRest (bracketSolid tail)) ?_
      refine yields_after (run_require rfl) ?_
      rw [object, isList]
      exact yields_pure ⟨rfl, rfl⟩

theorem yields_property {property : Property} (valid : property.isWellFormed = true)
    {start : Cursor} {tail : List Char}
    (rest : start.rest = property.field.tags.flatMap
        (fun tag => tag.text.toList ++ '\n' :: (indentation.margin depth).toList)
      ++ (property.field.name.toList ++ ':' :: ' ' :: (shapeText indentation depth property
        ++ ((defaultText property.field.defaultValue).toList ++ tail)))) (ends : EndsProperty tail) :
    (Reader.property (typeRef limit (levels + 1)) inner).Yields start (property.nesting ≤ levels)
      (Gives (property.reread.mapField fun field => { field with description := none }) tail) := by
  obtain ⟨validName, validTags, validDefault⟩ := property.isWellFormed_field valid
  obtain ⟨others, lineFeed⟩ := ends.lineFeed
  have gapBlank : ∀ c ∈ '\n' :: (indentation.margin depth).toList, isBlank c = true :=
    List.forall_mem_cons.mpr ⟨isBlank_lineFeed, Indentation.isBlank_margin⟩
  have colonSolid : ∀ tail, Solid (':' :: tail) := solid_cons (by decide)
  have colonStops : ∀ tail, Stops isIdentifierChar (':' :: tail) := stops_cons (by decide)
  have shapeEnds : EndsType ((defaultText property.field.defaultValue).toList ++ tail) := by
    cases property.field.defaultValue with
    | none =>
      rw [lineFeed]
      exact endsType_cons (by decide) others
    | some value =>
      rw [toList_defaultText_some]
      exact endsType_cons (by decide) _
  have delimits : Delimits tail := by
    rw [lineFeed]
    exact delimits_cons (by decide) (by decide)
  have notTag := head?_identifier_ne validName (show isIdentifierStart '@' = false by decide)
  refine (yields_tags validTags (List.cons_ne_nil _ _) gapBlank blank_nil
    (solid_identifier validName _) (notTag _) rest).andThen fun found afterTags gotTags => ?_
  obtain ⟨sameTags, tagsRest⟩ := gotTags
  refine yields_after (run_ask _ afterTags) ?_
  refine yields_after (run_identifier tagsRest validName (colonStops _)) ?_
  refine yields_after (skipsGaps_skipBlanks.nothing rfl (colonSolid _)) ?_
  refine yields_after (run_require rfl) ?_
  refine yields_after (skipsGaps_skipBlanks.space rfl (solid_shapeText valid _)) ?_
  refine (yields_propertyShape readsInner valid rfl shapeEnds).finally fun shape after got => ?_
  obtain ⟨rfl, afterRest⟩ := got
  refine (yields_defaultValue? validDefault afterRest delimits
    (ends.goesOn '=' (by decide))).andThen fun defaultValue final gotDefault => ?_
  obtain ⟨rfl, finalRest⟩ := gotDefault
  refine yields_pure ⟨?_, finalRest⟩
  rw [sameTags]
  cases property <;> rfl

/-- The property ends on the line of its last piece of code, and what follows is on a later one. -/
theorem yields_describedProperty {property : Property} (valid : property.isWellFormed = true)
    {pending : Pending} {earlier : List PendingComment} {start : Cursor} {tail : List Char}
    (describes : pending.Describes start.place.line
      ((descriptionLines property.field.description).map rereadLine) earlier)
    (rest : start.rest = property.field.tags.flatMap
        (fun tag => tag.text.toList ++ '\n' :: (indentation.margin depth).toList)
      ++ (property.field.name.toList ++ ':' :: ' ' :: (shapeText indentation depth property
        ++ ((defaultText property.field.defaultValue).toList ++ tail)))) (ends : EndsProperty tail) :
    (describedProperty (typeRef limit (levels + 1)) inner pending).Yields start
      (property.nesting ≤ levels) fun result after =>
        (∃ line, result = .next [property.reread] ⟨[], line⟩ ∧ line < after.place.line)
          ∧ after.rest = trimStart tail := by
  refine yields_after (run_here start) ?_
  refine (yields_property readsInner valid rest ends).finally fun found after got => ?_
  obtain ⟨rfl, afterRest⟩ := got
  have landedRest : after.landed.rest = trimStart tail := by
    rw [← afterRest]
    rfl
  have notComma : after.landed.rest.head? ≠ some ',' := by
    rw [landedRest]
    exact ends.goesOn ',' (by decide)
  have notSemicolon : after.landed.rest.head? ≠ some ';' := by
    rw [landedRest]
    exact ends.goesOn ';' (by decide)
  have noSeparator : eatSeparator.run after.landed = .done false after.landed [] := by
    rw [eatSeparator, run_andThen (run_eat_other notComma)]
    exact run_eat_other notSemicolon
  have later : after.place.line < after.landed.place.line := by
    obtain ⟨others, lineFeed⟩ := ends.lineFeed
    exact Cursor.line_lt_landed (afterRest.trans lineFeed)
  refine yields_after (run_here after) ?_
  refine yields_after (run_skipBlanks_landed after) ?_
  refine yields_after noSeparator ?_
  refine yields_after (run_here _) ?_
  refine yields_pure ⟨⟨after.place.line, ?_, later⟩, landedRest⟩
  rw [describes.descriptionOf_split]
  cases property <;> rfl

theorem yields_propertyRound {property : Property} (valid : property.isWellFormed = true)
    {pending : Pending} {earlier : List PendingComment} {start : Cursor} {tail : List Char}
    (describes : pending.Describes start.landed.place.line
      ((descriptionLines property.field.description).map rereadLine) earlier)
    (rest : start.landed.rest = property.field.tags.flatMap
        (fun tag => tag.text.toList ++ '\n' :: (indentation.margin depth).toList)
      ++ (property.field.name.toList ++ ':' :: ' ' :: (shapeText indentation depth property
        ++ ((defaultText property.field.defaultValue).toList ++ tail)))) (ends : EndsProperty tail) :
    (propertyRound (typeRef limit (levels + 1)) inner pending).Yields start
      (property.nesting ≤ levels) fun result after =>
        (∃ line, result = .next [property.reread] ⟨[], line⟩ ∧ line < after.place.line)
          ∧ after.rest = trimStart tail := by
  obtain ⟨validName, validTags, -⟩ := property.isWellFormed_field valid
  have opens : Opens start.landed.rest := rest ▸ opens_tags validTags validName _ _
  refine yields_after (run_skipBlanks_landed start) ?_
  refine yields_after (run_comment?_none _ opens.solid.2) ?_
  refine yields_after (run_eat_other (opens.head?_ne (by decide) (by decide))) ?_
  refine yields_after (run_look _ _) ?_
  simp only [opens.startsDeclaration]
  exact yields_describedProperty readsInner valid describes rest ends

/-- The members of a body, from wherever only blanks stand in front of the first one. -/
theorem yields_members {members : List Property} (valid : Property.areWellFormed members = true)
    {outer : List Char} (outerBlank : ∀ c ∈ outer, isBlank c = true) {pending : Pending}
    (noComments : pending.comments = []) {start : Cursor} {tail : List Char}
    (rest : trimStart start.rest
      = trimStart (membersText indentation depth members ++ (outer ++ '}' :: tail)))
    (behind : members ≠ [] → pending.lastCodeLine < start.landed.place.line) :
    (rounds (propertyRound (typeRef limit (levels + 1)) inner) (advances_propertyRound _ _)
      pending).Yields start (∀ member ∈ members, member.nesting ≤ levels)
        (Gives (Property.rereadAll members) tail) := by
  -- No comment is pending and the last code stands on an earlier line, so the lines above the next
  -- member are all of its description.
  induction members generalizing pending start with
  | nil =>
    have closed : start.landed.rest = '}' :: tail := rest.trans (trimStart_close outerBlank tail)
    have noComment : startsComment start.landed.rest = false := by
      rw [closed]
      rfl
    refine (yields_rounds_stop ?_).of_iff (iff_of_true trivial (by simp))
    refine yields_after (run_skipBlanks_landed start) ?_
    refine yields_after (run_comment?_none _ noComment) ?_
    refine yields_after (run_eat closed) ?_
    exact yields_pure ⟨[], rfl, rfl, rfl⟩
  | cons member others ih =>
    obtain ⟨validMember, validOthers⟩ := Bool.and_eq_true_iff.mp valid
    obtain ⟨validName, validTags, -⟩ := member.isWellFormed_field validMember
    have opens := opens_tags validTags validName ('\n' :: (indentation.margin depth).toList)
      (':' :: ' ' :: (shapeText indentation depth member
        ++ ((defaultText member.field.defaultValue).toList
          ++ '\n' :: (membersText indentation depth others ++ (outer ++ '}' :: tail)))))
    have ends := endsProperty_membersText indentation depth validOthers outerBlank tail
    have landedRest := (rest.trans (trimStart_membersText_cons validMember others _)).trans
      (memberText_append indentation depth member _)
    refine (yields_description (takesComments_propertyRound _ inner) Indentation.isBlank_margin
      Indentation.not_mem_margin (fun line => not_mem_descriptionLines) ?_ landedRest
      (Pending.describes_none ?_ (behind (List.cons_ne_nil _ _))) ?_)
    · exact opens.solid.1
    · rw [noComments]
      intro comment member
      exact absurd member List.not_mem_nil
    · intro pending start atMember describes
      refine (yields_rounds_next ?_).of_iff List.forall_mem_cons.symm
      refine (yields_propertyRound readsInner validMember describes atMember ends).mono ?_
      intro result after facts
      obtain ⟨⟨line, rfl, later⟩, afterRest⟩ := facts
      refine ⟨[member.reread], ⟨[], line⟩, rfl, ?_⟩
      have restSame : trimStart after.rest
          = trimStart (membersText indentation depth others ++ (outer ++ '}' :: tail)) := by
        rw [afterRest, trimStart_trimStart, trimStart_lineFeed]
      have othersBehind : others ≠ [] → line < after.landed.place.line :=
        fun _ => Nat.lt_of_lt_of_le later after.line_le_landed
      refine (ih validOthers rfl restSame othersBehind).mono fun properties final got => ?_
      obtain ⟨rfl, finalRest⟩ := got
      exact ⟨rfl, finalRest⟩

end

/-- A body is read back exactly if it nests within the levels that are left for it. -/
theorem yields_body (limit levels : Nat) {indentation : Indentation} {depth : Nat}
    {members : List Property} (valid : Property.areWellFormed members = true) {start : Cursor}
    {tail : List Char} (rest : start.rest = bodyText indentation depth members ++ tail) :
    (body limit levels).Yields start (Property.bodyNesting members ≤ levels)
      (Gives (Property.rereadAll members) tail) := by
  -- The levels carry the induction: the members of a body that is read with `levels + 1` are read
  -- with `levels`, and without levels even an empty body is too deep.
  induction levels generalizing depth members start tail with
  | zero => exact yields_tooDeep (Nat.not_le_of_lt (Property.bodyNesting_pos members))
  | succ levels ih =>
    refine Yields.of_iff ?_ Property.bodyNesting_le_iff.symm
    refine yields_after (run_here start) ?_
    have readsInner : ∀ {members : List Property} {start : Cursor} {tail : List Char},
        Property.areWellFormed members = true →
        start.rest = bodyText indentation (depth + 1) members ++ tail →
        (body limit levels).Yields start (Property.bodyNesting members ≤ levels)
          (Gives (Property.rereadAll members) tail) := fun valid rest => ih valid rest
    cases members with
    | nil => exact yields_members readsInner valid blank_nil rfl (congrArg trimStart rest) (absurd rfl)
    | cons first others =>
      have whole : start.rest = '\n' :: (membersText indentation (depth + 1) (first :: others)
          ++ ((indentation.margin depth).toList ++ '}' :: tail)) := by
        rw [rest, bodyText, toList_properties]
        simp
      have sameTrimmed : trimStart start.rest
          = trimStart (membersText indentation (depth + 1) (first :: others)
            ++ ((indentation.margin depth).toList ++ '}' :: tail)) := by
        rw [whole, trimStart_lineFeed]
      exact yields_members readsInner valid Indentation.isBlank_margin rfl sameTrimmed
        fun _ => Cursor.line_lt_landed whole

end ApiDef.Reader
