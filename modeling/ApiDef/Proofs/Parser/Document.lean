import ApiDef.Proofs.Parser.Follows
set_option autoImplicit false

/-!
# Parsers follow readers

Every parser of the grammar follows the reader of the same name. A reader without questions is lifted,
and where a reader asks, the parser checks. The readers of bodies and documents are loops, which go
round by round.
-/

namespace ApiDef.Parser

open Reader (Advancing Pending ReadParameter)
open Text

/-!
## Checks
-/

theorem follows_checkTags (site : Site) (tags : List (Tag × Span)) :
    (check fun validator => validator.checkTags site tags).Follows (Reader.ask (.tags site tags)) :=
  follows_check fun _ => rfl

theorem follows_checkType (type : TypeRef) (place : Span) :
    (check fun validator => validator.checkType type place).Follows (Reader.ask (.type type place)) :=
  follows_check fun _ => rfl

theorem follows_checkRoute (method : Method) (place : Span) :
    (check fun validator => validator.checkRoute method place).Follows
      (Reader.ask (.route method place)) :=
  follows_check fun _ => rfl

/-!
## Properties
-/

section

variable {types : Advancing TypeRef} {inner : Unit → Parser (List Property)}
  {innerReader : Unit → Reader (List Property)}

theorem follows_propertyShape (typesQuiet : types.toReader.Quiet)
    (innerFollows : (inner ()).Follows (innerReader ())) :
    (propertyShape types inner).Follows (Reader.propertyShape types innerReader) := by
  refine (follows_reading (Reader.quiet_eat '{')).bind fun isObject => ?_
  cases isObject with
  | true => exact innerFollows.bind fun _ => follows_pure _
  | false =>
    refine (follows_reading (Reader.quiet_eat '[')).bind fun isList => ?_
    cases isList with
    | true =>
      refine (follows_reading Reader.quiet_skipBlanks).bind fun _ => ?_
      refine (follows_reading (Reader.quiet_require '{')).bind fun _ => ?_
      refine innerFollows.bind fun _ => ?_
      refine (follows_reading Reader.quiet_skipBlanks).bind fun _ => ?_
      exact (follows_reading (Reader.quiet_require ']')).bind fun _ => follows_pure _
    | false =>
      refine (follows_reading (Reader.quiet_spanned typesQuiet)).bind fun ⟨type, place⟩ => ?_
      exact (follows_checkType type place).bind fun _ => follows_pure _

theorem follows_property (typesQuiet : types.toReader.Quiet)
    (innerFollows : (inner ()).Follows (innerReader ())) :
    (property types inner).Follows (Reader.property types innerReader) := by
  refine (follows_reading Reader.quiet_tags).bind fun tags => ?_
  refine (follows_checkTags .field tags).bind fun _ => ?_
  refine (follows_reading (Reader.quiet_identifier _)).bind fun _ => ?_
  refine (follows_reading Reader.quiet_skipBlanks).bind fun _ => ?_
  refine (follows_reading (Reader.quiet_require ':')).bind fun _ => ?_
  refine (follows_reading Reader.quiet_skipBlanks).bind fun _ => ?_
  refine (follows_propertyShape typesQuiet innerFollows).bind fun ⟨_, _⟩ => ?_
  exact (follows_reading Reader.quiet_defaultValue?).bind fun _ => follows_pure _

theorem follows_describedProperty (typesQuiet : types.toReader.Quiet)
    (innerFollows : (inner ()).Follows (innerReader ())) (pending : Pending) :
    (describedProperty types inner pending).Follows
      (Reader.describedProperty types innerReader pending) := by
  refine (follows_reading Reader.quiet_here).bind fun start => ?_
  refine (follows_property typesQuiet innerFollows).bind fun _ => ?_
  refine (follows_reading Reader.quiet_here).bind fun _ => ?_
  refine (follows_reading Reader.quiet_skipBlanks).bind fun _ => ?_
  refine (follows_reading Reader.quiet_eatSeparator).bind fun _ => ?_
  exact (follows_reading Reader.quiet_here).bind fun _ => follows_pure _

theorem follows_propertyRound (typesQuiet : types.toReader.Quiet)
    (innerFollows : (inner ()).Follows (innerReader ())) (pending : Pending) :
    (propertyRound types inner pending).Follows
      (Reader.propertyRound types innerReader pending) := by
  refine (follows_reading Reader.quiet_skipBlanks).bind fun _ => ?_
  refine (follows_reading (Reader.quiet_comment? _)).bind fun found => ?_
  cases found with
  | some comment => exact follows_pure _
  | none =>
    refine (follows_reading (Reader.quiet_eat '}')).bind fun closed => ?_
    cases closed with
    | true => exact follows_pure _
    | false =>
      refine (follows_reading (Reader.quiet_look _)).bind fun starts => ?_
      cases starts with
      | true => exact follows_describedProperty typesQuiet innerFollows pending
      | false => exact follows_reading (Reader.quiet_unexpected _)

end

/-- One level of a body follows if the levels inside it do. -/
theorem follows_body (limit levels : Nat) : (body limit levels).Follows (Reader.body limit levels) := by
  induction levels with
  | zero => exact follows_reading (Reader.quiet_fail _)
  | succ levels ih =>
    refine (follows_reading Reader.quiet_here).bind fun start => ?_
    exact follows_rounds (follows_propertyRound (Reader.quiet_typeRef limit (levels + 1)) ih) _

/-!
## Declarations
-/

theorem follows_enumeration (tags : List Tag) :
    (enumeration tags).Follows (Reader.enumeration tags) := by
  refine (follows_reading Reader.quiet_skipTrivia).bind fun _ => ?_
  refine (follows_reading (Reader.quiet_identifier [])).bind fun name => ?_
  refine (follows_declare name).bind fun _ => ?_
  refine (follows_reading Reader.quiet_skipTrivia).bind fun _ => ?_
  refine (follows_reading (Reader.quiet_require '{')).bind fun _ => ?_
  exact (follows_reading (Reader.quiet_rounds Reader.quiet_valueRound ())).bind fun _ =>
    follows_pure _

theorem follows_checkParameters (parameters : List ReadParameter) :
    (checkParameters parameters).Follows (Reader.askParameters parameters) := by
  induction parameters with
  | nil => exact follows_pure ()
  | cons read others ih =>
    exact (follows_checkTags .parameter read.tags).bind fun _ =>
      (follows_checkType read.type read.typePlace).bind fun _ => ih

theorem follows_method (limit : Nat) (tags : List (Tag × Span)) (name : String) (namePlace : Span) :
    (method limit tags name namePlace).Follows (Reader.method limit tags name namePlace) := by
  have typesQuiet := Reader.quiet_typeRef limit (limit + 1)
  refine (follows_reading (Reader.quiet_parameters typesQuiet)).bind fun parameters => ?_
  refine (follows_reading Reader.quiet_skipTrivia).bind fun _ => ?_
  refine (follows_reading (Reader.quiet_require ':')).bind fun _ => ?_
  refine (follows_reading Reader.quiet_skipTrivia).bind fun _ => ?_
  refine (follows_reading (Reader.quiet_spanned typesQuiet)).bind fun ⟨returnType, returnPlace⟩ => ?_
  refine (follows_checkTags .method tags).bind fun _ => ?_
  refine (follows_checkParameters parameters).bind fun _ => ?_
  refine (follows_checkType returnType returnPlace).bind fun _ => ?_
  dsimp only
  split
  · exact (follows_checkRoute _ _).bind fun _ => follows_pure _
  · exact follows_pure _

theorem follows_keywordDeclaration (options : Options) (tags : List (Tag × Span)) :
    (keywordDeclaration options tags).Follows
      (Reader.keywordDeclaration options.grammar tags) := by
  unfold keywordDeclaration Reader.keywordDeclaration
  change Follows (if options.types then _ else _) (if options.types then _ else _)
  split
  · refine (follows_reading (Reader.quiet_eatText _)).bind fun _ => ?_
    refine (follows_checkTags .type tags).bind fun _ => ?_
    exact (follows_enumeration _).bind fun _ => follows_pure _
  · exact follows_reading (Reader.quiet_fail _)

theorem follows_namedDeclaration (options : Options) (tags : List (Tag × Span)) :
    (namedDeclaration options tags).Follows (Reader.namedDeclaration options.grammar tags) := by
  refine (follows_reading (Reader.quiet_spanned (Reader.quiet_identifier _))).bind
    fun ⟨name, namePlace⟩ => ?_
  refine (follows_reading Reader.quiet_skipTrivia).bind fun _ => ?_
  refine (follows_reading (Reader.quiet_lookingAt '{')).bind fun isDataType => ?_
  cases isDataType with
  | true =>
    change Follows (if options.types then _ else _) (if options.types then _ else _)
    split
    · refine (follows_checkTags .type tags).bind fun _ => ?_
      refine (follows_declare name).bind fun _ => ?_
      refine (follows_reading (Reader.quiet_require '{')).bind fun _ => ?_
      exact (follows_body _ _).bind fun _ => follows_pure _
    · exact follows_reading (Reader.quiet_failAt _ _)
  | false =>
    refine (follows_reading (Reader.quiet_lookingAt '(')).bind fun isMethod => ?_
    cases isMethod with
    | true =>
      change Follows (if options.methods then _ else _) (if options.methods then _ else _)
      split
      · refine (follows_reading (Reader.quiet_require '(')).bind fun _ => ?_
        exact (follows_method _ tags name namePlace).bind fun _ => follows_pure _
      · exact follows_reading (Reader.quiet_failAt _ _)
    | false => exact follows_reading (Reader.quiet_unexpected _)

theorem follows_declaration (options : Options) :
    (declaration options).Follows (Reader.declaration options.grammar) := by
  refine (follows_reading Reader.quiet_tags).bind fun tags => ?_
  refine (follows_reading (Reader.quiet_look _)).bind fun isEnumeration => ?_
  cases isEnumeration with
  | true => exact follows_keywordDeclaration options tags
  | false => exact follows_namedDeclaration options tags

/-!
## Documents
-/

theorem follows_describedDeclaration (options : Options) (pending : Pending) :
    (describedDeclaration options pending).Follows
      (Reader.describedDeclaration options.grammar pending) := by
  refine (follows_reading Reader.quiet_here).bind fun start => ?_
  refine (follows_declaration options).bind fun _ => ?_
  exact (follows_reading Reader.quiet_here).bind fun _ => follows_pure _

theorem follows_documentRound (options : Options) (pending : Pending) :
    (documentRound options pending).Follows (Reader.documentRound options.grammar pending) := by
  refine (follows_reading Reader.quiet_skipBlanks).bind fun _ => ?_
  refine (follows_reading (Reader.quiet_look _)).bind fun ended => ?_
  cases ended with
  | true => exact follows_pure _
  | false =>
    refine (follows_reading (Reader.quiet_comment? _)).bind fun found => ?_
    cases found with
    | some comment => exact follows_pure _
    | none =>
      refine (follows_reading (Reader.quiet_look _)).bind fun starts => ?_
      cases starts with
      | true => exact follows_describedDeclaration options pending
      | false => exact follows_reading (Reader.quiet_unexpected _)

theorem follows_document (options : Options) :
    (document options).Follows (Reader.document options.grammar) :=
  follows_rounds (follows_documentRound options) _

end ApiDef.Parser
