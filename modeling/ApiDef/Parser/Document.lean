import ApiDef.Parser.Property
import ApiDef.Reader.Document
set_option autoImplicit false

/-!
# Parsing documents

The checks of a declaration come up where they can be made: the tags of a type in front of its body, its
name before the types of its members, and everything about a method behind its signature.
-/

namespace ApiDef.Parser

open Reader (Round Pending ReadParameter)
open Text

/-!
## Declarations
-/

def enumeration (tags : List Tag) : Parser Enumeration := do
  Reader.skipTrivia
  let name ← Reader.identifier []
  declare name
  Reader.skipTrivia
  Reader.require '{'
  let values ← Reader.rounds Reader.valueRound Reader.advances_valueRound ()
  pure ⟨name, none, tags, values⟩

def checkParameters : List ReadParameter → Parser Unit
  | [] => pure ()
  | read :: others => do
    check fun validator => validator.checkTags .parameter read.tags
    check fun validator => validator.checkType read.type read.typePlace
    checkParameters others

/-- A method after its opening parenthesis. The checks come after the whole signature. -/
def method (limit : Nat) (tags : List (Tag × Span)) (name : String) (namePlace : Span) :
    Parser Method := do
  let types := Reader.typeRef limit (limit + 1)
  let parameters ← Reader.parameters types
  Reader.skipTrivia
  Reader.require ':'
  Reader.skipTrivia
  let (returnType, returnPlace) ← Reader.spanned types.toReader
  let method : Method :=
    ⟨name, none, tags.map (·.1), returnType, parameters.map ReadParameter.parameter⟩
  check fun validator => validator.checkTags .method tags
  checkParameters parameters
  check fun validator => validator.checkType returnType returnPlace
  if method.verb?.isSome then
    check fun validator => validator.checkRoute method (namePlace.merge returnPlace)
  pure method

/-- A declaration that starts with the reserved word. -/
def keywordDeclaration (options : Options) (tags : List (Tag × Span)) : Parser Entity := do
  if options.types then
    let _ ← Reader.eatText "enum".toList
    check fun validator => validator.checkTags .type tags
    let declared ← enumeration (tags.map (·.1))
    pure (.enumeration declared)
  else Reader.fail .enumerationsForbidden

def namedDeclaration (options : Options) (tags : List (Tag × Span)) : Parser Entity := do
  let (name, namePlace) ← Reader.spanned (Reader.identifier [.mark "@", .mark "enum"])
  Reader.skipTrivia
  if ← Reader.lookingAt '{' then
    if options.types then
      check fun validator => validator.checkTags .type tags
      declare name
      Reader.require '{'
      let properties ← body options.maxNestingDepth options.maxNestingDepth
      pure (.dataType ⟨name, none, tags.map (·.1), properties⟩)
    else Reader.failAt namePlace .dataTypesForbidden
  else if ← Reader.lookingAt '(' then
    if options.methods then
      Reader.require '('
      let declared ← method options.maxNestingDepth tags name namePlace
      pure (.method declared)
    else Reader.failAt namePlace .methodsForbidden
  else Reader.unexpected [.mark "(", .openBrace]

def declaration (options : Options) : Parser Entity := do
  let tags ← Reader.tags
  if ← Reader.look Reader.startsEnumeration then keywordDeclaration options tags
  else namedDeclaration options tags

theorem advances_enumeration (tags : List Tag) : (enumeration tags).Advances fun _ => True :=
  .andThen fun _ =>
    (advances_reading (Reader.advances_identifier _)).bind fun _ never => absurd trivial never

theorem advances_keywordDeclaration (options : Options) (tags : List (Tag × Span)) :
    (keywordDeclaration options tags).Advances fun _ => True := by
  unfold keywordDeclaration
  split
  · exact .andThen fun _ => .andThen fun _ =>
      (advances_enumeration _).bind fun _ never => absurd trivial never
  · exact advances_reading Reader.advances_fail

theorem advances_declaration (options : Options) :
    (declaration options).Advances fun _ => True := by
  refine .andThen fun tags => .andThen fun isEnumeration => ?_
  cases isEnumeration with
  | true => exact advances_keywordDeclaration options tags
  | false =>
    exact (advances_reading (Reader.advances_spanned (Reader.advances_identifier _))).bind
      fun _ never => absurd trivial never

/-!
## Documents
-/

/-- A declaration with its description, behind the comments in front of it that do not describe
it. -/
def describedDeclaration (options : Options) (pending : Pending) :
    Parser (Round Pending Item) := do
  let start ← Reader.here
  let (describing, others) := Reader.splitDescription start.line pending.comments
  let entity ← declaration options
  let stop ← Reader.here
  pure (.next
    (Reader.commentItems others
      ++ [⟨entity.describe (Reader.descriptionOf describing), ⟨start, stop⟩⟩])
    ⟨[], stop.line⟩)

/-- A comment, a declaration, or the end of the text. -/
def documentRound (options : Options) (pending : Pending) : Parser (Round Pending Item) := do
  Reader.skipBlanks
  if ← Reader.look List.isEmpty then pure (.stop (Reader.commentItems pending.comments))
  else
    match ← Reader.comment? pending.lastCodeLine with
    | some comment => pure (.next [] (pending.add comment))
    | none =>
      if ← Reader.look Reader.startsDeclaration then describedDeclaration options pending
      else Reader.unexpected [.mark "@", .comment, .endOfInput, .identifier]

theorem advances_documentRound (options : Options) (pending : Pending) :
    (documentRound options pending).Advances Round.GoesOn := by
  refine .andThen fun _ => .andThen fun ended => ?_
  cases ended with
  | true => exact advances_pure fun goesOn => goesOn
  | false =>
    refine (advances_reading (Reader.advances_comment? _)).bind fun found notFound => ?_
    cases found with
    | some => simp at notFound
    | none =>
      refine .andThen fun starts => ?_
      cases starts with
      | false => exact advances_reading Reader.advances_unexpected
      | true =>
        exact .andThen fun _ =>
          (advances_declaration options).bind fun _ never => absurd trivial never

def document (options : Options) : Parser (List Item) :=
  rounds (documentRound options) (advances_documentRound options) ⟨[], 0⟩

end ApiDef.Parser
