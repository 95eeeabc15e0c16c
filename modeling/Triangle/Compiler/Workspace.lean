import Triangle.Compiler.Host
import Triangle.Text.Clip

/-!
# Workspaces

A host that is a value: a directory with files in it, and what was printed.  Paths are looked up
from that directory; they may go through `.` and `..`, but not out of it.
-/

namespace Triangle

/-- The names on the way from the directory of a workspace. -/
abbrev Path := List String

/-- A directory with files, and an output. -/
structure Workspace where
  directories : List Path := []
  files : List (Path × List UInt8) := []
  /-- What was printed. -/
  output : String := ""
  /-- How many more bytes can be printed, if that is limited. -/
  room : Option Nat := none

namespace Workspace

/-- The bytes of the file at a path. -/
def file? (workspace : Workspace) (path : Path) : Option (List UInt8) :=
  workspace.files.lookup path

/-- Whether there is a directory at a path.  What holds something is one. -/
def isDirectory (workspace : Workspace) (path : Path) : Bool :=
  path.isEmpty || workspace.directories.any path.isPrefixOf ||
    workspace.files.any fun file => path.isPrefixOf file.1 && path ≠ file.1

/-- Where a name leads to in a directory. -/
def step (folder : Path) (name : String) : Except FileFault Path :=
  if name = "." then .ok folder
  else if name = ".." then
    if folder.isEmpty then .error .missing else .ok folder.dropLast
  else .ok (folder ++ [name])

/-- The directory that a name leads to in a directory. -/
def enter (workspace : Workspace) (folder : Path) (name : String) : Except FileFault Path := do
  let next ← step folder name
  if workspace.isDirectory next then
    return next
  else if (workspace.file? next).isSome then
    throw .notDirectory
  else
    throw .missing

/-- The names in a path. -/
def names (path : String) : List String :=
  (path.splitOn "/").filter (· ≠ "")

/-- Where a path leads to.  All names but the last have to be those of directories. -/
def locate (workspace : Workspace) (path : String) : Except FileFault Path := do
  if path.startsWith "/" then
    throw .missing
  match (names path).getLast? with
  | none => throw .missing
  | some last => step (← (names path).dropLast.foldlM workspace.enter []) last

/-- The bytes of the file that a path leads to. -/
def readFile (workspace : Workspace) (path : String) : Except FileFault (List UInt8) := do
  let place ← workspace.locate path
  if workspace.isDirectory place then
    throw .isDirectory
  match workspace.file? place with
  | none => throw .missing
  | some bytes => if path.endsWith "/" then throw .notDirectory else return bytes

/-- The workspace with a file at the place that a path leads to. -/
def writeFile (workspace : Workspace) (path : String) (bytes : List UInt8) :
    Except FileFault Workspace := do
  let place ← workspace.locate path
  if path.endsWith "/" || workspace.isDirectory place then
    throw .isDirectory
  let others := workspace.files.filter fun file => file.1 ≠ place
  return { workspace with files := others ++ [(place, bytes)] }

/-- The workspace after printing a text as far as there is room, and whether there was. -/
def print (workspace : Workspace) (text : String) : Bool × Workspace :=
  match workspace.room with
  | none => (true, { workspace with output := workspace.output ++ text })
  | some room =>
    (text.utf8ByteSize ≤ room,
      { workspace with
        output := workspace.output ++ String.ofList (Text.clip room text.toList)
        room := some (room - text.utf8ByteSize) })

/-- The files that are new or have changed. -/
def changesSince (before after : Workspace) : List (Path × List UInt8) :=
  after.files.filter fun file => before.file? file.1 ≠ some file.2

end Workspace

instance : Host (StateM Workspace) where
  readFile path := do
    return (← get).readFile path
  writeFile path bytes := do
    match (← get).writeFile path bytes with
    | .ok workspace =>
      set workspace
      return none
    | .error fault => return some fault
  print text := modifyGet (·.print text)

end Triangle
