import Docmark.Config.Reading
import Docmark.FileTree
import Docmark.Glob.Reading
import Docmark.Ignore

/-!
# Finding the documents of a project

The Markdown files below a directory, less what names, ignore patterns, file patterns and size leave
out.  The walk enters directories through links too; it keeps the places that it has entered and
fails when it comes to one of them again.
-/

namespace Docmark

namespace Config

/-- Where the settings of a project may stand, the first one counts. -/
def fileNames : List Path := ["dfm.toml".toList, ".dfm.toml".toList, ".config/dfm.toml".toList]

/-- The file with the settings of the project in a directory. -/
def find? (t : FileTree) (root : Path) : Option Path :=
  (fileNames.map root.join).find? t.isFile

/-- The settings of the project in a directory, if it has any. -/
def load? (t : FileTree) (root : Path) : Except Fault (Option Config) :=
  match find? t root with
  | none => return none
  | some p =>
    match t.readText p with
    | .ok text => return some (← parse text)
    | .error f => throw (.file f)

/-- The settings of the project in a directory, or the defaults. -/
def load (t : FileTree) (root : Path) : Except Fault Config := do
  return (← load? t root).getD {}

end Config

/-- What a walk over a project leaves out. -/
structure Scan where
  root : Path
  /-- The patterns of the ignore file at the root. -/
  ignored : IgnoreRules
  /-- The patterns of the settings. -/
  excluded : IgnoreRules
  /-- The patterns of the files to take; none means all. -/
  wanted : List Glob.Pattern
  maxSize : Nat

namespace Scan

/-- The lines of some bytes, as texts; they end at the first that is no text.  A carriage return
before a line feed belongs to the line break, and byte order marks at the start do not count. -/
def linesOf (content : ByteArray) : List Text :=
  go content.toList [] true
where
  /-- The text of a line, given its bytes in reverse. -/
  line? (rev : List UInt8) (first : Bool) : Option Text := do
    let text ← FileTree.decode? ⟨rev.reverse.toArray⟩
    return if first then text.dropWhile (· = '\ufeff') else text
  /-- `rev` holds the bytes of the line at hand in reverse. -/
  go : List UInt8 → List UInt8 → Bool → List Text
    | [], rev, first => if rev.isEmpty then [] else (line? rev first).toList
    | b :: bs, rev, first =>
      if b = 10 then
        match line? (if rev.head? = some 13 then rev.tail else rev) first with
        | some text => text :: go bs [] false
        | none => []
      else go bs (b :: rev) first

/-- The patterns of the ignore file in a directory. -/
def ignoreFile (t : FileTree) (root : Path) : IgnoreRules :=
  match t.readBytes (root.join ".gitignore".toList) with
  | .ok content => IgnoreRules.ofLines (linesOf content)
  | .error _ => []

/-- The walk that some settings ask for. -/
def ofConfig (t : FileTree) (root : Path) (c : Config) : Except Fault Scan := do
  let wanted ← c.filePatterns.mapM fun p =>
    match Glob.Pattern.parse? p with
    | some g => return g
    | none => throw (.config (.filePattern p))
  let excluded ← c.excludePatterns.mapM fun p =>
    match IgnoreRules.ofLine? p with
    | some rules => return rules
    | none => throw (.config (.excludePattern p))
  return {
    root
    ignored := if c.disableGitignore then [] else ignoreFile t root
    excluded := excluded.flatten
    wanted
    maxSize := c.maxFileSize }

/-- Whether a name is hidden, or that of a directory for what other programs make. -/
def isSkippedName (name : Text) : Bool :=
  name.head? == some '.' || name == "node_modules".toList || name == "target".toList

variable (s : Scan)

/-- Whether ignore patterns leave out what a path denotes. -/
def leavesOut (p : Path) (isDir : Bool) : Bool :=
  let q := ignorePath s.root p
  s.ignored.ignores q isDir || s.excluded.ignores q isDir

/-- Whether a file is a document to build. -/
def takes (t : FileTree) (p : Path) : Bool :=
  p.isMarkdown &&
    (s.wanted.isEmpty || s.wanted.any fun g => g.accepts ((p.below? s.root).getD p)) &&
    (t.size? p).any (· ≤ s.maxSize)

/-- The documents found, and the places entered. -/
abbrev Found := List Path × List Trail

/-- Walks a directory and what is below it.  Every directory in which another one is entered is a
different place, so fuel for one more than there are directories is enough: without fuel left, the
place at hand has been entered before. -/
def walk (t : FileTree) : Nat → Path → Bool → Found → Except Fault Found
  | 0, dir, _, _ => throw (.symlinkCycle dir)
  | fuel + 1, dir, isRoot, found =>
    match t.locate dir with
    | .error _ => return found
    | .ok place =>
      if !t.isDir dir then return found
      else if found.2.contains place then throw (.symlinkCycle dir)
      else
        (t.names place).foldlM (fun (found : Found) name =>
          let p := dir.join name
          let isDir := t.isDir p
          if isSkippedName name || s.leavesOut p isDir then return found
          else if isDir then
            if !isRoot && (Config.find? t p).isSome then return found
            else walk t fuel p false found
          else if s.takes t p then return (p :: found.1, found.2)
          else return found) (found.1, place :: found.2)

/-- The documents of a project, in the order of their paths. -/
def documents (t : FileTree) : Except Fault (List Path) := do
  let (files, _) ← s.walk t (t.countDirs + 1) s.root true ([], [])
  return files.mergeSort Path.le

end Scan

end Docmark
