import ApiDef.CommandLine.Setting
import ApiDef.Json.Value
import ApiDef.Options
import ApiDef.Text.Blank
import ApiDef.Text.Decimal
set_option autoImplicit false

/-!
# Arguments

What a command line asks for. An option that takes a value may get it in the same argument or in
the next one; in the second case it is settled when the argument after its value has been recognised.
So an argument that nothing recognises is reported before a flaw of the option in front of it.
-/

namespace ApiDef.CommandLine

open Text

/-- Why a command line gives no command. -/
inductive UsageError where
  /-- An option that is not known, or one argument too many. -/
  | unexpected
  | unknownTask
  | missingTask
  | missingFile
  | missingValue
  | badNumber
  /-- A value for an option that takes none. -/
  | surplusValue
  /-- An option that may be given once is given again. -/
  | repeated
  | helpWanted
  | versionWanted
  /-- Nothing is asked for at all. -/
  | nothingAsked
deriving DecidableEq, Repr

/-- What has been read of a command line. -/
structure Progress where
  given : List (Setting × String)
  /-- An option that has yet to be settled, with its value if that has been read. -/
  pending : Option (Setting × Option String)
  file : Option String
  /-- No more options follow. -/
  onlyFiles : Bool
deriving DecidableEq, Repr

namespace Progress

def start : Progress := ⟨[], none, none, false⟩

def has (progress : Progress) (setting : Setting) : Bool :=
  progress.given.any fun entry => entry.1 = setting

/-- The values of a setting, in order. -/
def values (progress : Progress) (setting : Setting) : List String :=
  progress.given.filterMap fun entry => if entry.1 = setting then some entry.2 else none

def number? (progress : Progress) (setting : Setting) : Option Nat :=
  (progress.values setting).head?.bind unsigned?

def accept (progress : Progress) (setting : Setting) (value : String) :
    Except UsageError Progress :=
  if setting = .help then .error .helpWanted
  else if setting = .version then .error .versionWanted
  else if setting.form ≠ .texts ∧ progress.has setting then .error .repeated
  else if setting.form = .number ∧ (unsigned? value).isNone then .error .badNumber
  else .ok { progress with given := progress.given ++ [(setting, value)] }

def settle (progress : Progress) : Except UsageError Progress :=
  match progress.pending with
  | none => .ok progress
  | some (_, none) => .error .missingValue
  | some (setting, some value) => { progress with pending := none }.accept setting value

def give (progress : Progress) (setting : Setting) (value : String) :
    Except UsageError Progress := do
  (← progress.settle).accept setting value

/-- Waits for the value of a setting after settling the one before. -/
def await (progress : Progress) (setting : Setting) : Except UsageError Progress := do
  return { ← progress.settle with pending := some (setting, none) }

def takeLong (known : List Setting) (progress : Progress) (name : String)
    (value : Option String) : Except UsageError Progress :=
  match known.find? fun setting => setting.longName = name with
  | none => .error .unexpected
  | some setting =>
    match setting.form, value with
    | .switch, none => progress.give setting ""
    | .switch, some _ => .error .surplusValue
    | _, none => progress.await setting
    | _, some value => progress.give setting value

/-- Takes the letters behind one dash. What follows the letter of an option that takes a value is
that value. -/
def takeLetters (known : List Setting) (progress : Progress) :
    List Char → Except UsageError Progress
  | [] => .ok progress
  | letter :: others =>
    match known.find? fun setting => setting.letter? = some letter with
    | none => .error .unexpected
    | some setting =>
      match setting.form, others with
      | .switch, _ => do takeLetters known (← progress.give setting "") others
      | _, [] => progress.await setting
      | _, '=' :: value => progress.give setting (String.ofList value)
      | _, value => progress.give setting (String.ofList value)

def takeOption? (known : List Setting) (progress : Progress) (argument : String) :
    Option (Except UsageError Progress) :=
  match argument.toList with
  | '-' :: '-' :: body =>
    some <| match cutAt? '=' body with
    | some (name, value) =>
      takeLong known progress (String.ofList name) (some (String.ofList value))
    | none => takeLong known progress (String.ofList body) none
  | '-' :: letter :: letters => some (takeLetters known progress (letter :: letters))
  | _ => none

def takeFile (progress : Progress) (file : String) : Except UsageError Progress :=
  match progress.file with
  | some _ => .error .unexpected
  | none => do return { ← progress.settle with file := some file }

def take (known : List Setting) (progress : Progress) (argument : String) :
    Except UsageError Progress :=
  if progress.onlyFiles then progress.takeFile argument
  else if argument = "--" then .ok { progress with onlyFiles := true }
  else
    match takeOption? known progress argument with
    | some result => result
    | none =>
      match progress.pending with
      | some (setting, none) => .ok { progress with pending := some (setting, some argument) }
      | _ => progress.takeFile argument

def options (progress : Progress) : Options :=
  { methods := progress.has .methods || progress.has .all
    types := progress.has .types || progress.has .all
    rest := progress.has .rest || progress.has .all
    validTypes := progress.values .validType
    methodTags := progress.values .methodTag
    parameterTags := progress.values .parameterTag
    typeTags := progress.values .typeTag
    fieldTags := progress.values .fieldTag
    softErrors := progress.has .soft
    maxNestingDepth := (progress.number? .maxDepth).getD Options.defaultNestingDepth }

end Progress

/-- What is to be done with which file. Without an output file, the result is printed. -/
inductive Command where
  | validate (file : String) (options : Options)
  | format (file : String) (options : Options) (output : Option String) (check : Bool)
      (indent : Option Nat)
  | tokens (file : String) (asJson : Bool)
  | toSchema (file : String) (options : Options) (output : Option String) (style : Json.Style)
  | fromSchema (file : String) (output : Option String)
deriving DecidableEq, Repr

namespace Command

def file : Command → String
  | validate file _ => file
  | format file _ _ _ _ => file
  | tokens file _ => file
  | toSchema file _ _ _ => file
  | fromSchema file _ => file

def ofProgress (task : Task) (progress : Progress) (file : String) : Command :=
  let output := (progress.values .output).head?
  match task with
  | .validate => validate file progress.options
  | .format =>
    format file progress.options output (progress.has .check) (progress.number? .indent)
  | .tokens => tokens file (progress.has .json)
  | .toSchema =>
    toSchema file progress.options output (if progress.has .pretty then .pretty else .compact)
  | .fromSchema => fromSchema file output

def ofTask (task : Task) (arguments : List String) : Except UsageError Command := do
  let progress ← arguments.foldlM (Progress.take task.settings) .start
  let progress ← progress.settle
  match progress.file with
  | some file => return ofProgress task progress file
  | none => throw .missingFile

def helpWord : String := "help"

/-- Whether a word is that of a task or asks for help. -/
def isTaskWord (word : String) : Bool :=
  word = helpWord || (Task.ofWord? word).isSome

def helpAbout : List String → UsageError
  | [] => .helpWanted
  | [word] => if isTaskWord word then .helpWanted else .unknownTask
  | _ => .unknownTask

def outerSettings : List Setting := [.verbose, .help, .version]

def withoutTask (progress : Progress) : UsageError :=
  if progress.given.isEmpty then .nothingAsked else .missingTask

def ofArgumentsAfter (progress : Progress) : List String → Except UsageError Command
  | [] => .error (withoutTask progress)
  | argument :: others =>
    if argument = helpWord then .error (helpAbout others)
    else
      match Task.ofWord? argument with
      | some task => ofTask task others
      | none =>
        if argument = "--" then
          .error <| match others with
          | [] => withoutTask progress
          | word :: _ => if isTaskWord word then .unexpected else .unknownTask
        else
          match Progress.takeOption? outerSettings progress argument with
          | some (.ok progress) => ofArgumentsAfter progress others
          | some (.error error) => .error error
          | none => .error .unknownTask

def ofArguments (arguments : List String) : Except UsageError Command :=
  ofArgumentsAfter .start arguments

end Command

end ApiDef.CommandLine
