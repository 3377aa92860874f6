import Docmark.Command.Run

/-!
# The program

Reads the files that a command line is about, runs the command on them, and writes back the files
that it changed.  What is read is the working directory, the root of the project, and the directory
of the file that the command names, each with all that is below.
-/

namespace Docmark.Main

/-- The names on the way to an absolute path. -/
def trailOf (p : String) : Trail := (splitOn '/' p.toList).filter (· ≠ [])

/-- What stands at an entry of a directory, and whether it is a directory.  A link is taken to lead
straight to the place that it leads to in the end. -/
def readNode (entry : IO.FS.DirEntry) : IO (Option FileNode) := do
  match (← entry.path.symlinkMetadata).type with
  | .dir => return some .directory
  | .file => return some (.file (← IO.FS.readBinFile entry.path))
  | .symlink =>
    try
      let target ← IO.FS.realPath entry.path
      return some (.link target.toString.toList)
    catch _ => return some (.link "/missing".toList)
  | .other => return none

/-- Adds the directory of a path to a tree, with all that is below it.  The entries are added from the
last to the first, for the last one added is listed first. -/
partial def addDirectory (t : FileTree) (dir : String) : IO FileTree := do
  let mut t := (t.makeDirs (trailOf dir).dropLast).put (trailOf dir) .directory
  for entry in (← (← IO.FS.realPath dir).readDir).reverse do
    match ← readNode entry with
    | some .directory => t ← addDirectory t entry.path.toString
    | some node => t := t.put (trailOf entry.path.toString) node
    | none => pure ()
  return t

/-- Adds the directory of a path, if it is one that is not there yet. -/
def addMissing (t : FileTree) (dir : String) : IO FileTree := do
  try
    let real := (← IO.FS.realPath dir).toString
    if (t.node? (trailOf real)).isSome then return t
    addDirectory t real
  catch _ => return t

/-- The directories that a command line is about, besides the working directory. -/
def directories (args : List Text) : List Path :=
  match Command.Invocation.parse args with
  | .error _ => []
  | .ok invocation =>
    let file := match invocation.action with
      | some (.render file _ _) => file.parent?
      | some (.tokens file _) => file.parent?
      | _ => none
    invocation.root.toList ++ file.toList

/-- Writes the files that are new or have changed. -/
def writeBack (before after : FileTree) : IO Unit := do
  for (place, node) in after.nodes do
    match node, before.node? place with
    | .file content, some (.file old) =>
      if content != old then IO.FS.writeBinFile (String.ofList (FileTree.pathOf place)) content
    | .file content, _ => IO.FS.writeBinFile (String.ofList (FileTree.pathOf place)) content
    | _, _ => pure ()

end Docmark.Main

open Docmark in
/-- Runs a command line and ends with its exit code. -/
def main (args : List String) : IO UInt32 := do
  let args := args.map String.toList
  let here := (← IO.FS.realPath (← IO.currentDir)).toString
  let mut t ← Main.addDirectory {} here
  for dir in Main.directories args do
    t ← Main.addMissing t (String.ofList dir)
  let ending := Command.run args (← IO.getEnv "NO_COLOR").isNone
    { t with workingDir := Main.trailOf here }
  Main.writeBack t ending.terminal.files
  IO.print (String.ofList ending.terminal.out)
  IO.eprint (String.ofList ending.terminal.err)
  return ending.code.toUInt32
