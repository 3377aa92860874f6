import Docmark.Fault
import Docmark.Include
import Docmark.Path

/-!
# File trees

The files that a build sees, as a value: what stands at each place below the root, and the directory
from which relative paths start.  `locate` follows a path and the symbolic links on its way to the
one place that it denotes; reading, writing and listing go by places.
-/

namespace Docmark

/-- A place in a file tree: the names on the way from the root. -/
abbrev Trail := List Text

/-- What stands at a place. -/
inductive FileNode where
  | file (content : ByteArray)
  | directory
  /-- A symbolic link. -/
  | link (target : Path)

/-- Files, directories and links by place.  The order within a directory is that of the list. -/
structure FileTree where
  nodes : List (Trail × FileNode) := []
  /-- The directory from which relative paths start. -/
  workingDir : Trail := []

namespace FileTree

/-- How a place is written as a path. -/
def pathOf (place : Trail) : Path := '/' :: List.intercalate ['/'] place

/-- What stands at a place.  The root is always a directory. -/
def node? (t : FileTree) (place : Trail) : Option FileNode :=
  if place.isEmpty then some .directory else t.nodes.lookup place

/-- Puts something at a place, instead of what stands there.  A new entry becomes the first of its
directory, as where files are kept in memory; other file systems have orders of their own. -/
def put (t : FileTree) (place : Trail) (node : FileNode) : FileTree :=
  if t.nodes.any (·.1 = place) then
    { t with nodes := t.nodes.map fun n => if n.1 = place then (place, node) else n }
  else { t with nodes := (place, node) :: t.nodes }

/-- The tree with a directory at a place, and directories above it, where nothing stands yet. -/
def makeDirs (t : FileTree) (place : Trail) : FileTree :=
  (List.range place.length).foldl (fun t n =>
    let upper := place.take (n + 1)
    if (t.node? upper).isSome then t else t.put upper .directory) t

/-- Puts something at a place and makes the directories above it. -/
def add (t : FileTree) (place : Trail) (node : FileNode) : FileTree :=
  (t.makeDirs place.dropLast).put place node

/-! ## Following paths -/

/-- How many links a path may lead over. -/
def maxLinks : Nat := 40

/-- Follows the pieces of a path from a place.  Every piece, an empty one too, needs a directory to
start from.  With `create`, the place of a missing last name is found as well. -/
def follow (t : FileTree) (create : Bool) (links : Nat) (place : Trail) :
    List Text → Except FileFault Trail
  | [] => .ok place
  | piece :: rest =>
    match t.node? place with
    | some .directory =>
      if piece = [] ∨ piece = ['.'] then t.follow create links place rest
      else if piece = ['.', '.'] then t.follow create links place.dropLast rest
      else
        match t.node? (place ++ [piece]) with
        | none => if create ∧ rest = [] then .ok (place ++ [piece]) else .error .notFound
        | some (.link target) =>
          match links with
          | 0 => .error .tooManyLinks
          | links + 1 =>
            t.follow create links (if target.isAbsolute then [] else place)
              (splitOn '/' target ++ rest)
        | some _ => t.follow create links (place ++ [piece]) rest
    | _ => .error .notADirectory
termination_by pieces => (links, pieces.length)

/-- The place that a path denotes.  With `create`, its last name may be missing. -/
def find (t : FileTree) (create : Bool) (p : Path) : Except FileFault Trail :=
  if p = [] then .error .notFound
  else t.follow create maxLinks (if p.isAbsolute then [] else t.workingDir) (splitOn '/' p)

/-- The place of what stands at a path. -/
def locate (t : FileTree) (p : Path) : Except FileFault Trail := t.find false p

/-- What a path denotes. -/
def at? (t : FileTree) (p : Path) : Option FileNode :=
  match t.locate p with
  | .ok place => t.node? place
  | .error _ => none

/-- The path of the place that a path denotes. -/
def canonical? (t : FileTree) (p : Path) : Option Path := (t.locate p).toOption.map pathOf

/-- Whether a path denotes a directory. -/
def isDir (t : FileTree) (p : Path) : Bool :=
  match t.at? p with
  | some .directory => true
  | _ => false

/-- Whether a path denotes a file. -/
def isFile (t : FileTree) (p : Path) : Bool :=
  match t.at? p with
  | some (.file _) => true
  | _ => false

/-- The number of bytes of the file that a path denotes. -/
def size? (t : FileTree) (p : Path) : Option Nat :=
  match t.at? p with
  | some (.file content) => some content.size
  | _ => none

/-- The names in a directory, in the order in which it lists them. -/
def names (t : FileTree) (dir : Trail) : List Text :=
  t.nodes.filterMap fun (place, _) => if place.dropLast = dir then place.getLast? else none

/-- The number of directories. -/
def countDirs (t : FileTree) : Nat :=
  1 + t.nodes.countP fun n =>
    match n.2 with
    | .directory => true
    | _ => false

/-! ## Reading and writing -/

/-- The text that some bytes encode. -/
def decode? (content : ByteArray) : Option Text := (String.fromUTF8? content).map String.toList

/-- The bytes that encode a text. -/
def encode (content : Text) : ByteArray := (String.ofList content).toUTF8

/-- The bytes of the file that a path denotes. -/
def readBytes (t : FileTree) (p : Path) : Except FileFault ByteArray := do
  let place ← t.locate p
  match t.node? place with
  | some (.file content) => return content
  | some _ => throw .isADirectory
  | none => throw .notFound

/-- The text of the file that a path denotes. -/
def readText (t : FileTree) (p : Path) : Except FileFault Text := do
  match decode? (← t.readBytes p) with
  | some content => return content
  | none => throw .notUnicode

/-- The tree with a text in the file that a path denotes; the file itself need not be there yet. -/
def writeText (t : FileTree) (p : Path) (content : Text) : Except FileFault FileTree := do
  let place ← t.find true p
  match t.node? place with
  | some .directory => throw .isADirectory
  | _ => return t.put place (.file (encode content))

/-! ## Directives -/

/-- The path where the target of a directive is sought: as it stands if it is absolute, else in the
directory of the file with the directive, else in a base directory. -/
def candidate (baseDir : Option Path) (p : Path) (file : Option Path) : Path :=
  if p.isAbsolute then p
  else match file.bind Path.parent?, baseDir with
    | some dir, _ => dir.join p
    | none, some base => base.join p
    | none, none => p

/-- Finds the file that a directive names. -/
def resolve (t : FileTree) (baseDir : Option Path) (p : Path) (file : Option Path) :
    Option Resolved :=
  match t.locate (candidate baseDir p file) with
  | .error _ => none
  | .ok place =>
    match t.node? place with
    | some (.file content) =>
      (decode? content).map fun text => ⟨normalizeLineEndings text, pathOf place⟩
    | _ => none

theorem mem_keys_of_node? {t : FileTree} {place : Trail} {node : FileNode}
    (h : t.node? place = some node) (hne : place ≠ []) : place ∈ t.nodes.map (·.1) := by
  have hl : t.nodes.lookup place = some node := by simpa [node?, hne] using h
  exact mem_keys_of_lookup hl

/-- The resolver of a file tree. -/
def resolver (t : FileTree) (baseDir : Option Path) : Resolver where
  resolve := t.resolve baseDir
  known := t.nodes.map fun n => pathOf n.1
  resolve_known p file r h := by
    unfold resolve at h
    split at h
    · simp at h
    · rename_i place _
      split at h
      · rename_i content hn
        obtain ⟨text, _, rfl⟩ := Option.map_eq_some_iff.1 h
        have hne : place ≠ [] := by
          rintro rfl
          simp [node?] at hn
        have hm := mem_keys_of_node? hn hne
        rw [List.mem_map] at hm ⊢
        obtain ⟨n, hn, hp⟩ := hm
        exact ⟨n, hn, by simp [hp]⟩
      · simp at h

end FileTree

end Docmark
