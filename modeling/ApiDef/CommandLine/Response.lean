import ApiDef.CommandLine.Arguments
import ApiDef.CommandLine.Folder
import ApiDef.Layout
import ApiDef.Schema.Conversion
import ApiDef.Schema.Decode
import ApiDef.Token
set_option autoImplicit false

/-!
# Responses

What a command answers to the text of its file: what it prints, what it writes, and why it fails.
-/

namespace ApiDef.CommandLine

/-- Why a command fails. -/
inductive Failure where
  | access (path : String) (problem : AccessProblem)
  | tooLarge (path : String) (size limit : Nat)
  | unreadable (error : ReadError)
  /-- The file was read, and there are so many findings that are errors. -/
  | invalid (count : Nat)
  | badSchema (fault : Json.Fault)
  | notCanonical
  | noIndentation
deriving DecidableEq, Repr

def Failure.message : Failure → String
  | access path problem => "I/O error for '" ++ path ++ "': " ++ problem.message
  | tooLarge path size limit =>
    "File '" ++ path ++ "' is too large (" ++ toString size ++ " bytes). Maximum allowed: "
      ++ toString limit ++ " bytes (" ++ toString (limit / (1024 * 1024)) ++ " MB)"
  | unreadable error => "Parse error: " ++ error.text
  | invalid count => "Validation failed with " ++ toString count ++ " error(s)"
  | badSchema fault =>
    "Schema conversion error: Schema JSON parse error: " ++ fault.message?.getD "malformed JSON"
  | notCanonical => "File is not in canonical form"
  | noIndentation => "Invalid input: --indent must be at least 1"

/-- What a command does. -/
structure Response where
  printed : String
  /-- A file to write, with its contents. -/
  saved : Option (String × String)
  failure : Option Failure
deriving DecidableEq, Repr

namespace Response

def print (text : String) : Response := ⟨text, none, none⟩

def fail (failure : Failure) : Response := ⟨"", none, some failure⟩

def endLine (text : String) : String :=
  if text.toList.getLast? = some '\n' then text else text ++ "\n"

/-- A command whose result goes to a file, or is printed when there is none. -/
def deliver (output : Option String) (result : String) : Response :=
  match output with
  | some path => ⟨"", some (path, result), none⟩
  | none => print (endLine result)

end Response

/-- A way of showing text on a terminal, by the number that terminals know it by. -/
inductive Style where
  | boldGreen
  | boldRed
  | yellow
  | red
deriving DecidableEq, Repr

namespace Style

def start : Style → String
  | boldGreen => "\x1b[1;32m"
  | boldRed => "\x1b[1;31m"
  | yellow => "\x1b[33m"
  | red => "\x1b[31m"

def stop : String := "\x1b[0m"

/-- A text in a style. Where the text turns styles off itself, the style is turned on again. -/
def apply (style : Style) (colour : Bool) (text : String) : String :=
  if colour then
    style.start ++ String.intercalate (stop ++ style.start) (text.splitOn stop) ++ stop
  else text

end Style

def Finding.line (colour : Bool) (finding : Finding) : String :=
  let style : Style := match finding.severity with
    | .warning => .yellow
    | .error => .red
  "  " ++ style.apply colour finding.text ++ "\n"

def verdict (colour good : Bool) (file : String) : String :=
  (if good then Style.boldGreen.apply colour "✓" else Style.boldRed.apply colour "✗")
    ++ " " ++ file ++ "\n"

def summary (document : Document) : String :=
  "  Enums: " ++ toString (document.count .enumeration) ++ "\n  Data types: "
    ++ toString (document.count .dataType) ++ "\n  Methods: " ++ toString (document.count .method)
    ++ "\n  Comments: " ++ toString (document.count .comment) ++ "\n"

/-- Says whether a text is valid, what it contains, and what was found. -/
def validate (patternFault? : String → Option String) (colour : Bool) (file : String)
    (options : Options) (text : String) : Response :=
  match Document.readWith patternFault? options text with
  | .error error => ⟨verdict colour false file, none, some (.unreadable error)⟩
  | .ok document =>
    let errors := document.findings.countP Finding.isError
    ⟨verdict colour (errors = 0) file ++ summary document
        ++ String.join (document.findings.map (Finding.line colour)),
      none, if errors = 0 then none else some (.invalid errors)⟩

/-- The characters of a text with every line ending made a line feed. -/
def plainLineEndings : List Char → List Char
  | '\r' :: '\n' :: rest => '\n' :: plainLineEndings rest
  | c :: rest => c :: plainLineEndings rest
  | [] => []

/-- Whether a text is canonical, apart from line endings and blanks at either end. -/
def isCanonical (canonical text : String) : Bool :=
  Text.trim canonical = Text.trim (String.ofList (plainLineEndings text.toList))

/-- Writes a text in canonical layout, or checks that it has it. -/
def format (patternFault? : String → Option String) (options : Options) (output : Option String)
    (check : Bool) (indent : Option Nat) (text : String) : Response :=
  match Document.readWith patternFault? options text with
  | .error error => .fail (.unreadable error)
  | .ok document =>
    if indent = some 0 then .fail .noIndentation
    else
      let indentation : Indentation := (indent.map Indentation.spaces).getD .tab
      let canonical := Layout.write indentation document.entities
      if check then
        if isCanonical canonical text then .print "File is in canonical form\n"
        else .fail .notCanonical
      else .deliver output canonical

def tokenJson (token : Token) : Json :=
  .object [("type", .string token.kind.label), ("value", .string token.value)]

def tokenLine (token : Token) : String :=
  token.kind.label ++ "\t" ++ String.ofList (Json.quoted token.value) ++ "\n"

def tokens (asJson : Bool) (text : String) : Response :=
  let found := Token.tokenize text
  .deliver none <|
    if asJson then (Json.array (found.map tokenJson)).text .pretty
    else String.join (found.map tokenLine)

def toSchema (patternFault? : String → Option String) (options : Options) (output : Option String)
    (style : Json.Style) (text : String) : Response :=
  match Document.readWith patternFault? options text with
  | .error error => .fail (.unreadable error)
  | .ok document => .deliver output ((Schema.ofEntities document.entities).write style)

def fromSchema (output : Option String) (text : String) : Response :=
  match Schema.read text with
  | .error fault => .fail (.badSchema fault)
  | .ok schema => .deliver output (Layout.write .tab schema.toEntities)

def Command.respond (patternFault? : String → Option String) (colour : Bool) (command : Command)
    (text : String) : Response :=
  match command with
  | .validate file options => CommandLine.validate patternFault? colour file options text
  | .format _ options output check indent =>
    CommandLine.format patternFault? options output check indent text
  | .tokens _ asJson => CommandLine.tokens asJson text
  | .toSchema _ options output style =>
    CommandLine.toSchema patternFault? options output style text
  | .fromSchema _ output => CommandLine.fromSchema output text

end ApiDef.CommandLine
