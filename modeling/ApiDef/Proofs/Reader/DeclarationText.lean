import ApiDef.Proofs.Reader.PropertyText
set_option autoImplicit false

/-!
# Reading declarations back

Enumerations, data types and methods are read back from behind their descriptions, each if it fits
into the nesting limit.
-/

namespace ApiDef.Reader

open Text Layout

theorem colon_solid (tail : List Char) : Solid (':' :: tail) :=
  solid_cons (by decide) tail

/-!
## Enumerations
-/

theorem isBlank_unit {indentation : Indentation} : ∀ c ∈ indentation.unit.toList, isBlank c = true := by
  rw [← Indentation.margin_one]
  exact Indentation.isBlank_margin

theorem yields_valuesFrom {indentation : Indentation} {first : String} {others : List String}
    (valid : ∀ value ∈ first :: others, isIdentifier value = true) {start : Cursor}
    {blanks tail : List Char} (allBlank : ∀ c ∈ blanks, isBlank c = true)
    (rest : start.rest = blanks ++ (first.toList ++ (others.flatMap
      (fun value => ',' :: '\n' :: (indentation.unit.toList ++ value.toList)) ++ '\n' :: '}' :: tail))) :
    (rounds valueRound advances_valueRound ()).Yields start True (Gives (first :: others) tail) := by
  -- The last value has a line feed behind it, every other one a comma.
  induction others generalizing first start blanks with
  | nil =>
    have validFirst := valid first List.mem_cons_self
    have notClosed := head?_identifier_ne validFirst (show isIdentifierStart '}' = false by decide)
    have closeSolid : Solid ('}' :: tail) := solid_cons (by decide) tail
    rw [List.flatMap_nil, List.nil_append] at rest
    have ended : '\n' :: '}' :: tail = ['\n'] ++ '}' :: tail := rfl
    refine yields_rounds_stop ?_
    refine yields_after (run_skipTrivia rest allBlank (solid_identifier validFirst _)) ?_
    refine yields_after (run_eat_other (notClosed _)) ?_
    refine yields_after (run_identifier rfl validFirst (stops_cons (by decide) _)) ?_
    refine yields_after (run_skipTrivia ended blank_lineFeed closeSolid) ?_
    refine yields_after (run_eat rfl) ?_
    exact yields_pure ⟨[first], rfl, rfl, rfl⟩
  | cons second others ih =>
    have validFirst := valid first List.mem_cons_self
    have notClosed := head?_identifier_ne validFirst (show isIdentifierStart '}' = false by decide)
    have commaSolid : ∀ tail, Solid (',' :: tail) := solid_cons (by decide)
    have gapBlank : ∀ c ∈ '\n' :: indentation.unit.toList, isBlank c = true :=
      List.forall_mem_cons.mpr ⟨isBlank_lineFeed, isBlank_unit⟩
    rw [List.flatMap_cons, List.append_assoc] at rest
    refine (yields_rounds_next ?_).of_iff (iff_of_eq (true_and True))
    refine yields_after (run_skipTrivia rest allBlank (solid_identifier validFirst _)) ?_
    refine yields_after (run_eat_other (notClosed _)) ?_
    refine yields_after (run_identifier rfl validFirst (stops_cons (by decide) _)) ?_
    refine yields_after (skipsGaps_skipTrivia.nothing rfl (commaSolid _)) ?_
    refine yields_after (run_eat_other (head?_cons_ne (by decide) _)) ?_
    refine yields_after (run_eat rfl) ?_
    refine yields_pure ⟨[first], (), rfl, ?_⟩
    refine (ih (fun value member => valid value (List.mem_cons_of_mem _ member)) gapBlank ?_).mono ?_
    · simp [Cursor.pass]
    · intro values final got
      obtain ⟨rfl, finalRest⟩ := got
      exact ⟨rfl, finalRest⟩

theorem yields_values {indentation : Indentation} {values : List String}
    (valid : ∀ value ∈ values, isIdentifier value = true) {start : Cursor} {tail : List Char}
    (rest : start.rest = valuesText indentation values ++ tail) :
    (rounds valueRound advances_valueRound ()).Yields start True (Gives values tail) := by
  cases values with
  | nil =>
    have closeSolid : Solid ('}' :: tail) := solid_cons (by decide) tail
    refine yields_rounds_stop ?_
    refine yields_after (skipsGaps_skipTrivia.nothing rest closeSolid) ?_
    refine yields_after (run_eat rfl) ?_
    exact yields_pure ⟨[], rfl, rfl, rfl⟩
  | cons first others =>
    have gapBlank : ∀ c ∈ '\n' :: indentation.unit.toList, isBlank c = true :=
      List.forall_mem_cons.mpr ⟨isBlank_lineFeed, isBlank_unit⟩
    have whole : start.rest = ('\n' :: indentation.unit.toList) ++ (first.toList ++ (others.flatMap
        (fun value => ',' :: '\n' :: (indentation.unit.toList ++ value.toList))
          ++ '\n' :: '}' :: tail)) := by
      rw [rest, valuesText]
      simp
    exact yields_valuesFrom valid gapBlank whole

theorem yields_enumeration {indentation : Indentation} {declared : Enumeration}
    (validName : isIdentifier declared.name = true)
    (validValues : ∀ value ∈ declared.values, isIdentifier value = true) {start : Cursor}
    {tail : List Char}
    (rest : start.rest = ' ' :: (declared.name.toList
      ++ ' ' :: '{' :: (valuesText indentation declared.values ++ tail))) :
    (enumeration declared.tags).Yields start True
      (Gives { declared with description := none } tail) := by
  have braceSolid : ∀ tail, Solid ('{' :: tail) := solid_cons (by decide)
  refine yields_after (skipsGaps_skipTrivia.space rest (solid_identifier validName _)) ?_
  refine yields_after (run_identifier rfl validName (stops_cons (by decide) _)) ?_
  refine yields_after (run_ask _ _) ?_
  refine yields_after (skipsGaps_skipTrivia.space rfl (braceSolid _)) ?_
  refine yields_after (run_require rfl) ?_
  refine (yields_values validValues rfl).andThen fun values after got => ?_
  obtain ⟨rfl, afterRest⟩ := got
  exact yields_pure ⟨rfl, afterRest⟩

/-!
## Methods
-/

theorem opens_parameter {parameter : Parameter} (valid : parameter.isWellFormed = true)
    (tail : List Char) : Opens (parameter.text.toList ++ tail) := by
  simp only [Parameter.isWellFormed, Bool.and_eq_true, List.all_eq_true] at valid
  rw [Parameter.toList_text, List.append_assoc, List.append_assoc]
  exact opens_tags valid.2 valid.1.1 [' '] _

theorem yields_parameter (limit : Nat) {parameter : Parameter} (valid : parameter.isWellFormed = true)
    {start : Cursor} {tail : List Char} (rest : start.rest = parameter.text.toList ++ tail)
    (ends : EndsType tail) :
    (Reader.parameter (typeRef limit (limit + 1))).Yields start (parameter.type.nesting ≤ limit)
      fun result after => result.parameter = parameter ∧ after.rest = tail := by
  simp only [Parameter.isWellFormed, Bool.and_eq_true, List.all_eq_true] at valid
  obtain ⟨⟨validName, validType⟩, validTags⟩ := valid
  have whole : start.rest = [] ++ (parameter.tags.flatMap (fun tag => tag.text.toList ++ [' '])
      ++ (parameter.name.toList ++ ':' :: (parameter.type.text.toList ++ tail))) := by
    rw [rest, Parameter.toList_text, List.append_assoc, List.append_assoc]
    rfl
  have notTag := head?_identifier_ne validName (show isIdentifierStart '@' = false by decide)
  refine (yields_tags validTags (List.cons_ne_nil _ _) blank_space blank_nil
    (solid_identifier validName _) (notTag _) whole).andThen fun found after gotTags => ?_
  obtain ⟨sameTags, tagsRest⟩ := gotTags
  refine yields_after (run_identifier tagsRest validName (stops_cons (by decide) _)) ?_
  refine yields_after (skipsGaps_skipTrivia.nothing rfl (colon_solid _)) ?_
  refine yields_after (run_require rfl) ?_
  refine yields_after (skipsGaps_skipTrivia.nothing rfl (solid_typeText validType tail)) ?_
  refine Yields.finally (Yields.of_iff
    (yields_typeRef limit (limit + 1) validType ?_ ends).spanned Nat.lt_succ_iff) ?_
  · rfl
  intro result final got
  obtain ⟨type, place⟩ := result
  obtain ⟨rfl, finalRest⟩ := got
  refine yields_pure ⟨?_, finalRest⟩
  rw [ReadParameter.parameter, sameTags]

theorem yields_parameters (limit : Nat) {found : List Parameter}
    (valid : ∀ parameter ∈ found, parameter.isWellFormed = true) {start : Cursor} {tail : List Char}
    (rest : start.rest = parametersText found ++ ')' :: tail) :
    (parameters (typeRef limit (limit + 1))).Yields start
      (∀ parameter ∈ found, parameter.type.nesting ≤ limit)
      fun result after => result.map ReadParameter.parameter = found ∧ after.rest = tail := by
  have closeSolid : ∀ tail, Solid (')' :: tail) := solid_cons (by decide)
  cases found with
  | nil =>
    refine yields_after (skipsGaps_skipTrivia.nothing rest (closeSolid tail)) ?_
    refine yields_after (run_eat rfl) ?_
    exact (yields_pure ⟨rfl, rfl⟩).of_iff (iff_of_true trivial (by simp))
  | cons first others =>
    have opens := opens_parameter (valid first List.mem_cons_self)
    have closeEnds : ∀ tail, EndsType (')' :: tail) := endsType_cons (by decide)
    have reads : ∀ parameter ∈ first :: others,
        ReadsItem ⟨Reader.parameter (typeRef limit (limit + 1)), advances_parameter _⟩ ')'
          ReadParameter.parameter (fun parameter => parameter.text.toList)
          (fun parameter => parameter.type.nesting ≤ limit) parameter := by
      intro parameter member
      refine ⟨fun tail => (opens_parameter (valid parameter member) tail).solid, ?_⟩
      intro start tail rest ends
      exact yields_parameter limit (valid parameter member) rest (endsType_of_endsItem closeEnds ends)
    rw [parametersText, List.append_assoc] at rest
    refine yields_after (skipsGaps_skipTrivia.nothing rest (opens _).solid) ?_
    refine yields_after (run_eat_other ((opens _).head?_ne (by decide) (by decide))) ?_
    exact yields_separated skipsGaps_skipTrivia closeSolid (by decide) reads blank_nil rfl

theorem yields_askParameters (found : List ReadParameter) (start : Cursor) :
    (askParameters found).Yields start True fun _ after => after = start := by
  induction found with
  | nil => exact yields_pure rfl
  | cons first others ih => exact yields_after (run_ask _ start) (yields_after (run_ask _ start) ih)

theorem yields_method (limit : Nat) {declared : Method} (validParameters : ∀ parameter ∈
      declared.parameters, parameter.isWellFormed = true)
    (validReturn : declared.returnType.isWellFormed = true) {tags : List (Tag × Span)}
    (sameTags : tags.map (·.1) = declared.tags) (namePlace : Span) {start : Cursor} {tail : List Char}
    (rest : start.rest = parametersText declared.parameters
      ++ ')' :: ':' :: (declared.returnType.text.toList ++ tail)) (ends : EndsType tail) :
    (method limit tags declared.name namePlace).Yields start (declared.nesting ≤ limit)
      (Gives { declared with description := none } tail) := by
  refine Yields.of_iff ?_ Method.nesting_le_iff.symm
  refine (yields_parameters limit validParameters rest).bind fun found after got => ?_
  obtain ⟨sameParameters, afterRest⟩ := got
  refine yields_after (skipsGaps_skipTrivia.nothing afterRest (colon_solid _)) ?_
  refine yields_after (run_require rfl) ?_
  refine yields_after (skipsGaps_skipTrivia.nothing rfl (solid_typeText validReturn tail)) ?_
  refine Yields.finally (Yields.of_iff
    (yields_typeRef limit (limit + 1) validReturn ?_ ends).spanned Nat.lt_succ_iff) ?_
  · rfl
  intro result final got
  obtain ⟨type, place⟩ := result
  obtain ⟨rfl, finalRest⟩ := got
  refine yields_after (run_ask _ final) ?_
  refine (yields_askParameters found final).andThen fun _ behind same => ?_
  subst same
  refine yields_after (run_ask _ behind) ?_
  rw [sameTags, sameParameters]
  dsimp only
  split
  · exact yields_after (run_ask _ behind) (yields_pure ⟨rfl, finalRest⟩)
  · exact yields_pure ⟨rfl, finalRest⟩

/-!
## Declarations
-/

theorem yields_namedDataType {grammar : Grammar} (allowed : grammar.types = true)
    {indentation : Indentation} {declared : DataType} (validName : isIdentifier declared.name = true)
    (validMembers : Property.areWellFormed declared.properties = true) {tags : List (Tag × Span)}
    (sameTags : tags.map (·.1) = declared.tags) {start : Cursor} {tail : List Char}
    (rest : start.rest = declared.name.toList
      ++ ' ' :: '{' :: (bodyText indentation 0 declared.properties ++ tail)) :
    (namedDeclaration grammar tags).Yields start
      (Property.bodyNesting declared.properties ≤ grammar.maxNestingDepth)
      (Gives (((Entity.dataType declared).reread).describe none) tail) := by
  have braceSolid : ∀ tail, Solid ('{' :: tail) := solid_cons (by decide)
  have named : (identifier [.mark "@", .mark "enum"]).Yields start True (Gives declared.name
      (' ' :: '{' :: (bodyText indentation 0 declared.properties ++ tail))) :=
    yields_of_run (run_identifier rest validName (stops_cons (by decide) _)) ⟨rfl, rfl⟩
  refine named.spanned.andThen fun found after got => ?_
  obtain ⟨name, place⟩ := found
  obtain ⟨rfl, afterRest⟩ := got
  refine yields_after (skipsGaps_skipTrivia.space afterRest (braceSolid _)) ?_
  refine yields_after (run_lookingAt rfl) ?_
  simp only [if_true, allowed]
  refine yields_after (run_ask _ _) ?_
  refine yields_after (run_ask _ _) ?_
  refine yields_after (run_require rfl) ?_
  refine (yields_body _ _ validMembers rfl).finally fun properties final gotBody => ?_
  obtain ⟨rfl, finalRest⟩ := gotBody
  rw [sameTags]
  exact yields_pure ⟨rfl, finalRest⟩

theorem yields_namedMethod {grammar : Grammar} (allowed : grammar.methods = true)
    {declared : Method} (validName : isIdentifier declared.name = true)
    (validParameters : ∀ parameter ∈ declared.parameters, parameter.isWellFormed = true)
    (validReturn : declared.returnType.isWellFormed = true) {tags : List (Tag × Span)}
    (sameTags : tags.map (·.1) = declared.tags) {start : Cursor} {tail : List Char}
    (rest : start.rest = declared.name.toList ++ '(' :: (parametersText declared.parameters
      ++ ')' :: ':' :: (declared.returnType.text.toList ++ tail))) (ends : EndsType tail) :
    (namedDeclaration grammar tags).Yields start (declared.nesting ≤ grammar.maxNestingDepth)
      (Gives (((Entity.method declared).reread).describe none) tail) := by
  have openSolid : ∀ tail, Solid ('(' :: tail) := solid_cons (by decide)
  have named : (identifier [.mark "@", .mark "enum"]).Yields start True (Gives declared.name
      ('(' :: (parametersText declared.parameters
        ++ ')' :: ':' :: (declared.returnType.text.toList ++ tail)))) :=
    yields_of_run (run_identifier rest validName (stops_cons (by decide) _)) ⟨rfl, rfl⟩
  refine named.spanned.andThen fun found after got => ?_
  obtain ⟨name, place⟩ := found
  obtain ⟨rfl, afterRest⟩ := got
  refine yields_after (skipsGaps_skipTrivia.nothing afterRest (openSolid _)) ?_
  refine yields_after (run_lookingAt_other (head?_cons_ne (by decide) _)) ?_
  refine yields_after (run_lookingAt rfl) ?_
  simp only [if_true, allowed]
  refine yields_after (run_require rfl) ?_
  refine (yields_method _ validParameters validReturn sameTags place rfl ends).finally
    fun method final gotMethod => ?_
  obtain ⟨rfl, finalRest⟩ := gotMethod
  exact yields_pure ⟨rfl, finalRest⟩

theorem not_startsEnumeration {name : String} (valid : isIdentifier name = true)
    (other : name ≠ "enum") {tail : List Char} (stops : Stops isIdentifierChar tail) :
    startsEnumeration (name.toList ++ tail) = false := by
  cases starts : startsEnumeration (name.toList ++ tail) with
  | false => rfl
  | true =>
    obtain ⟨first, others, -, -, inside⟩ := exists_of_isIdentifier valid
    have word := (isSome_afterWord?_iff (by decide)).mp starts
    rw [takeWhile_of_stops inside stops, String.toList_inj] at word
    exact absurd word other

/-- A declaration is named if its tags are followed by a name other than the reserved word. -/
theorem yields_declaration_named {grammar : Grammar} {found : List Tag} {name : String}
    (validTags : ∀ tag ∈ found, tag.isWellFormed = true) (validName : isIdentifier name = true)
    (other : name ≠ "enum") {start : Cursor} {tail : List Char}
    (rest : start.rest = found.flatMap (fun tag => tag.text.toList ++ ['\n']) ++ (name.toList ++ tail))
    (stops : Stops isIdentifierChar tail) {fits : Prop} {good : Entity → Cursor → Prop}
    (next : ∀ tags after, tags.map (·.1) = found → after.rest = name.toList ++ tail →
      (namedDeclaration grammar tags).Yields after fits good) :
    (declaration grammar).Yields start fits good := by
  have notTag := head?_identifier_ne validName (show isIdentifierStart '@' = false by decide)
  refine (yields_tags validTags (List.cons_ne_nil _ _) blank_lineFeed blank_nil
    (solid_identifier validName _) (notTag _) rest).andThen fun tags after got => ?_
  obtain ⟨sameTags, afterRest⟩ := got
  have starts : startsEnumeration after.rest = false := by
    rw [afterRest]
    exact not_startsEnumeration validName other stops
  refine yields_after (run_look _ _) ?_
  simp only [starts, Bool.false_eq_true, if_false]
  exact next tags after sameTags afterRest

/-- A declaration is read back without its description. -/
theorem yields_declaration {grammar : Grammar} {indentation : Indentation} {entity : Entity}
    (notComment : entity.isComment = false) (valid : entity.isWellFormed = true)
    (allowed : entity.isAllowed grammar = true) {start : Cursor} {tail : List Char}
    (rest : start.rest = entity.tags.flatMap (fun tag => tag.text.toList ++ ['\n'])
      ++ (declarationText indentation entity ++ tail)) (ends : EndsType tail) :
    (declaration grammar).Yields start (entity.nesting ≤ grammar.maxNestingDepth)
      (Gives (entity.reread.describe none) tail) := by
  cases entity with
  | comment text => cases notComment
  | enumeration declared =>
    simp only [Entity.isWellFormed, Bool.and_eq_true, List.all_eq_true] at valid
    obtain ⟨⟨validName, validTags⟩, validValues⟩ := valid
    simp only [declarationText, List.append_assoc, List.cons_append] at rest
    have keyword : isIdentifier "enum" = true := by decide
    have notTag := head?_identifier_ne keyword (show isIdentifierStart '@' = false by decide)
    refine (yields_tags validTags (List.cons_ne_nil _ _) blank_lineFeed blank_nil
      (solid_identifier keyword _) (notTag _) rest).andThen fun found after got => ?_
    obtain ⟨sameTags, afterRest⟩ := got
    have stops : ∀ tail, Stops isIdentifierChar (' ' :: tail) := stops_cons (by decide)
    have starts : startsEnumeration after.rest = true := by
      rw [afterRest, startsEnumeration, afterWord?_append (stops _)]
      rfl
    have typesAllowed : grammar.types = true := allowed
    refine yields_after (run_look _ _) ?_
    simp only [starts, if_true, keywordDeclaration, typesAllowed]
    refine yields_after (run_eatText afterRest) ?_
    refine yields_after (run_ask _ _) ?_
    rw [sameTags]
    refine ((yields_enumeration validName validValues rfl).andThen fun declared final got => ?_).of_iff
      (iff_of_true trivial (Nat.zero_le _))
    obtain ⟨rfl, finalRest⟩ := got
    exact yields_pure ⟨rfl, finalRest⟩
  | dataType declared =>
    simp only [Entity.isWellFormed, Bool.and_eq_true, List.all_eq_true, decide_eq_true_eq] at valid
    obtain ⟨⟨⟨validName, other⟩, validTags⟩, validMembers⟩ := valid
    simp only [declarationText, List.append_assoc, List.cons_append] at rest
    refine yields_declaration_named validTags validName other rest (stops_cons (by decide) _) ?_
    intro found after sameTags afterRest
    exact yields_namedDataType allowed validName validMembers sameTags afterRest
  | method declared =>
    simp only [Entity.isWellFormed, Bool.and_eq_true, List.all_eq_true, decide_eq_true_eq] at valid
    obtain ⟨⟨⟨⟨validName, other⟩, validTags⟩, validParameters⟩, validReturn⟩ := valid
    simp only [declarationText, List.append_assoc, List.cons_append] at rest
    refine yields_declaration_named validTags validName other rest (stops_cons (by decide) _) ?_
    intro found after sameTags afterRest
    exact yields_namedMethod allowed validName validParameters validReturn sameTags afterRest ends

end ApiDef.Reader
