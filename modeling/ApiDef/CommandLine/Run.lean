import ApiDef.CommandLine.Response
set_option autoImplicit false

/-!
# Runs

A command carried out in a folder. A file is refused for its size before it is read.
-/

namespace ApiDef.CommandLine

/-- The size of the largest file that is read, where none is given. -/
def defaultSizeLimit : Nat := 64 * 1024 * 1024

/-- The size of the largest file that is read; a setting that is no number is ignored. -/
def sizeLimit (setting : Option String) : Nat :=
  (setting.bind Text.unsigned?).getD defaultSizeLimit

def directorySize : Nat := 4096

def Node.size : Node → Nat
  | directory => directorySize
  | file contents => contents.size

def Node.text : Node → Except AccessProblem String
  | directory => .error .isDirectory
  | file contents =>
    match String.fromUTF8? contents with
    | some text => .ok text
    | none => .error .notText

namespace Folder

def readText (folder : Folder) (limit : Nat) (path : String) : Except Failure String := do
  let node ← (folder.find path).mapError (.access path)
  if limit < node.size then throw (.tooLarge path node.size limit)
  node.text.mapError (.access path)

/-- What a command prints, what the folder holds afterwards, and why the command fails. -/
def run (patternFault? : String → Option String) (folder : Folder) (limit : Nat) (colour : Bool)
    (command : Command) : String × Folder × Option Failure :=
  match folder.readText limit command.file with
  | .error failure => ("", folder, some failure)
  | .ok text =>
    let response := command.respond patternFault? colour text
    match response.saved with
    | none => (response.printed, folder, response.failure)
    | some (path, contents) =>
      match folder.write path contents.toUTF8 with
      | .ok folder => (response.printed, folder, response.failure)
      | .error problem => (response.printed, folder, some (.access path problem))

end Folder

end ApiDef.CommandLine
