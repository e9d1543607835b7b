set_option autoImplicit false

/-!
# Folders

The files that a command can reach: a tree of directories, addressed by paths that start in its root.
A path that leaves the root leads nowhere. Reading and writing fail as the operating system would
have them fail.
-/

namespace ApiDef.CommandLine

/-- Why a file cannot be read or written. -/
inductive AccessProblem where
  | notFound
  | notDirectory
  | isDirectory
  | nameTooLong
  | nulInName
  | notText
  /-- Anything else, in the words of the operating system. -/
  | other (words : String)
deriving DecidableEq, Repr

def AccessProblem.message : AccessProblem → String
  | notFound => "No such file or directory (os error 2)"
  | notDirectory => "Not a directory (os error 20)"
  | isDirectory => "Is a directory (os error 21)"
  | nameTooLong => "File name too long (os error 36)"
  | nulInName => "file name contained an unexpected NUL byte"
  | notText => "stream did not contain valid UTF-8"
  | other words => words

/-- What a path leads to. -/
inductive Node where
  | directory
  | file (contents : ByteArray)

/-- What there is below a root. The place of a node is the list of names that leads there. -/
structure Folder where
  nodes : List (List String × Node)

namespace Folder

def empty : Folder := ⟨[]⟩

def parts (path : String) : List String := path.splitOn "/"

/-- What is at a place. A place with something below it is a directory. -/
def at? (folder : Folder) (place : List String) : Option Node :=
  if place.isEmpty then some .directory
  else
    match folder.nodes.lookup place with
    | some node => some node
    | none =>
      if folder.nodes.any fun entry => place.isPrefixOf entry.1 then some .directory else none

def put (folder : Folder) (place : List String) (node : Node) : Folder :=
  ⟨folder.nodes.filter (fun entry => entry.1 ≠ place) ++ [(place, node)]⟩

/-- The longest name that a file may have, in bytes. -/
def longestName : Nat := 255

/-- The place that names lead to from a directory. Every step but the last must be a directory. -/
def walk (folder : Folder) (place : List String) : List String → Except AccessProblem (List String)
  | [] => .ok place
  | name :: others =>
    match folder.at? place with
    | none => .error .notFound
    | some (.file _) => .error .notDirectory
    | some .directory =>
      if name = "" ∨ name = "." then walk folder place others
      else if name = ".." then
        if place.isEmpty then .error .notFound else walk folder place.dropLast others
      else if longestName < name.utf8ByteSize then .error .nameTooLong
      else walk folder (place ++ [name]) others

def checkPath (path : String) : Except AccessProblem Unit :=
  if path.toList.contains '\x00' then .error .nulInName
  else if path = "" ∨ path.toList.head? = some '/' then .error .notFound
  else .ok ()

def find (folder : Folder) (path : String) : Except AccessProblem Node := do
  checkPath path
  match folder.at? (← folder.walk [] (parts path)) with
  | some node => return node
  | none => throw .notFound

/-- The name at the end of a path, the names before it, and whether slashes follow it. -/
def splitName (path : String) : List String × String × Bool :=
  let reversed := (parts path).reverse
  match reversed.dropWhile (· = "") with
  | [] => ([], "", true)
  | name :: before => (before.reverse, name, reversed.head? = some "")

/-- Writes a file. Its directory must exist. -/
def write (folder : Folder) (path : String) (contents : ByteArray) :
    Except AccessProblem Folder := do
  checkPath path
  let (before, name, slashes) := splitName path
  let place ← folder.walk [] before
  match folder.at? place with
  | none => throw .notFound
  | some (.file _) => throw .notDirectory
  | some .directory =>
    if slashes ∨ name = "." ∨ name = ".." then throw .isDirectory
    if longestName < name.utf8ByteSize then throw .nameTooLong
    match folder.at? (place ++ [name]) with
    | some .directory => throw .isDirectory
    | _ => return folder.put (place ++ [name]) (.file contents)

def bytes? (folder : Folder) (place : List String) : Option (List UInt8) :=
  match folder.at? place with
  | some (.file contents) => some contents.toList
  | _ => none

/-- The files that are new, or that have other bytes than in an earlier folder. -/
def changesSince (folder earlier : Folder) : List (List String × ByteArray) :=
  folder.nodes.filterMap fun (place, node) =>
    match node with
    | .directory => none
    | .file contents =>
      if earlier.bytes? place = some contents.toList then none else some (place, contents)

end Folder

end ApiDef.CommandLine
