import ApiDef.CommandLine.Run
import ApiDef.Rest.Pattern
set_option autoImplicit false

/-!
# The program

Carries out the command that the command line asks for, on the files of the machine.
-/

namespace ApiDef.CommandLine

def AccessProblem.ofError : IO.Error → AccessProblem
  | .noFileOrDirectory .. => .notFound
  | .inappropriateType _ code _ => if code = 20 then .notDirectory else .isDirectory
  | error => .other (toString error)

def attempt {α : Type} (path : String) (action : IO α) : IO (Except Failure α) := do
  try
    return .ok (← action)
  catch error =>
    return .error (.access path (.ofError error))

def readText (limit : Nat) (path : String) : IO (Except Failure String) := do
  match ← attempt path (IO.FS.readBinFile path) with
  | .error failure => return .error failure
  | .ok contents =>
    if limit < contents.size then return .error (.tooLarge path contents.size limit)
    return (Node.file contents).text.mapError (.access path)

def carryOut (response : Response) : IO (Option Failure) := do
  (← IO.getStdout).putStr response.printed
  match response.saved with
  | none => return response.failure
  | some (path, contents) =>
    match ← attempt path (IO.FS.writeFile path contents) with
    | .ok _ => return response.failure
    | .error failure => return some failure

def usage : String :=
  "usage: apidef " ++ String.intercalate "|" (Task.everyTask.map Task.word) ++ " FILE [OPTIONS]"

def UsageError.message : UsageError → String
  | unexpected => "unexpected argument"
  | unknownTask => "unknown task"
  | missingTask | nothingAsked => "a task is required"
  | missingFile => "a file is required"
  | missingValue => "an option requires a value"
  | badNumber => "a number is required"
  | surplusValue => "an option takes no value"
  | repeated => "an option is given twice"
  | helpWanted => usage
  | versionWanted => "apidef 1.0.0"

def Command.execute (command : Command) : IO UInt32 := do
  let limit := sizeLimit (← IO.getEnv "KAPLANG_MAX_FILE_SIZE")
  let colour := (← (← IO.getStdout).isTty) && (← IO.getEnv "NO_COLOR").isNone
  let failure ← match ← readText limit command.file with
    | .error failure => pure (some failure)
    | .ok text => carryOut (command.respond Pattern.fault? colour text)
  match failure with
  | none => return 0
  | some failure =>
    IO.eprintln ("Error: " ++ failure.message)
    return 1

end ApiDef.CommandLine

open ApiDef.CommandLine in
def main (arguments : List String) : IO UInt32 := do
  match Command.ofArguments arguments with
  | .ok command => command.execute
  | .error error =>
    match error with
    | .helpWanted | .versionWanted =>
      IO.println error.message
      return 0
    | _ =>
      IO.eprintln ("error: " ++ error.message)
      IO.eprintln usage
      return 2
