import Docmark.Text.Line

/-!
# Paths

File paths as they are written, and the places that they denote.  Two paths are the same when their
components agree; repeated slashes, inner dots and a slash at the end make no difference, but a
leading dot does.  Everything here is lexical: no file is looked at.
-/

namespace Docmark

/-- A file path as it is written. -/
abbrev Path := Text

namespace Path

/-- A step of a path. -/
inductive Component where
  | root
  /-- A dot at the very start of a relative path. -/
  | current
  | parent
  | name (s : Text)
deriving DecidableEq

/-- How a component is written. -/
def Component.text : Component → Text
  | root => ['/']
  | current => ['.']
  | parent => ['.', '.']
  | name s => s

/-- Whether a path starts at the root. -/
def isAbsolute (p : Path) : Bool := p.head? == some '/'

/-- The component that a piece between slashes stands for, if any. -/
def pieceComponent? (piece : Text) : Option Component :=
  if piece = [] ∨ piece = ['.'] then none
  else if piece = ['.', '.'] then some .parent
  else some (.name piece)

/-- The steps of a path. -/
def components (p : Path) : List Component :=
  match splitOn '/' p with
  | [] => []
  | first :: rest =>
    let inner := rest.filterMap pieceComponent?
    if p.isAbsolute then .root :: inner
    else if first = ['.'] then .current :: inner
    else (pieceComponent? first).toList ++ inner

/-- Whether two paths have the same components. -/
def same (p q : Path) : Bool := p.components == q.components

/-- Appends one piece, with a slash where one is needed. -/
def push (p : Path) (piece : Text) : Path :=
  if isAbsolute piece then piece
  else if p = [] ∨ p.getLast? = some '/' then p ++ piece
  else p ++ '/' :: piece

/-- The path that `q` denotes as seen from the directory `p`. -/
def join (p q : Path) : Path := p.push q

/-- The path with the given components. -/
def ofComponents (cs : List Component) : Path := cs.foldl (fun p c => p.push c.text) []

/-- The directory that holds the file at a path; the root and the empty path have none. -/
def parent? (p : Path) : Option Path :=
  match p.components.reverse with
  | [] => none
  | .root :: _ => none
  | _ :: rest => some (ofComponents rest.reverse)

/-- The last component, if it is a name. -/
def fileName? (p : Path) : Option Text :=
  match p.components.getLast? with
  | some (.name s) => some s
  | _ => none

/-- Splits a file name at its last dot.  A dot at the very start does not count. -/
def splitExtension (fileName : Text) : Text × Option Text :=
  if fileName = ['.', '.'] then (fileName, none)
  else
    let suffix := (fileName.reverse.takeWhile (· ≠ '.')).reverse
    let stem := fileName.take (fileName.length - suffix.length - 1)
    if suffix.length = fileName.length ∨ stem = [] then (fileName, none) else (stem, some suffix)

/-- The extension of the last component. -/
def extension? (p : Path) : Option Text := p.fileName?.bind fun n => (splitExtension n).2

/-- The path without slashes and dots behind its last component. -/
def trimSteps (p : Path) : Path :=
  match splitOn '/' p with
  | [] => p
  | first :: rest =>
    let kept := (rest.reverse.dropWhile fun piece => piece = [] ∨ piece = ['.']).reverse
    List.intercalate ['/'] (first :: kept)

/-- Exchanges the part of a file name behind its stem for another extension. -/
def setExtension (p : Path) (ext : Text) : Path :=
  match p.fileName? with
  | none => p
  | some name =>
    let body := p.trimSteps
    let stem := (splitExtension name).1
    body.take (body.length - (name.length - stem.length)) ++
      (if ext = [] then [] else '.' :: ext)

/-- The path with another extension.  First the letters of the old one go, so that of two dots the
later one is still there when the stem is sought. -/
def withExtension (p : Path) (ext : Text) : Path :=
  match p.extension? with
  | none => p.setExtension ext
  | some old => setExtension (p.take (p.length - old.length)) ext

/-- Drops the first `n` components from the pieces of a path; at the start of the path, a root or a
dot is a component too. -/
def dropComponents (atStart : Bool) : Nat → List Text → List Text
  | 0, pieces => pieces
  | _, [] => []
  | n + 1, piece :: pieces =>
    let isComponent := (pieceComponent? piece).isSome || (atStart && (piece = [] ∨ piece = ['.']))
    if isComponent then dropComponents false n pieces else dropComponents false (n + 1) pieces

/-- The path as seen from the directory `base`, if it starts with the components of `base`. -/
def below? (p base : Path) : Option Path :=
  if base.components.isPrefixOf p.components then
    let n := base.components.length
    if n = 0 then some p
    else
      let pieces := dropComponents true n (splitOn '/' p)
      let void (piece : Text) : Bool := piece = [] ∨ piece = ['.']
      some (List.intercalate ['/'] ((pieces.dropWhile void).reverse.dropWhile void).reverse)
  else none

/-! ## Lexical normalization -/

/-- A place given by names below the root or below some directory; the last name comes first. -/
structure Place where
  absolute : Bool
  trail : List Text

/-- The place reached by one more step.  A step to the parent takes back the last name, whatever it
is; where there is none, it stays as a step. -/
def Place.step (here : Place) : Component → Place
  | .root => ⟨true, []⟩
  | .current => here
  | .parent =>
    match here.trail with
    | [] => ⟨here.absolute, [['.', '.']]⟩
    | _ :: rest => ⟨here.absolute, rest⟩
  | .name s => ⟨here.absolute, s :: here.trail⟩

/-- How a place is written. -/
def Place.path (here : Place) : Path :=
  (if here.absolute then ['/'] else []) ++ List.intercalate ['/'] here.trail.reverse

/-- Resolves the dots of a path without looking at any file. -/
def normalize (p : Path) : Path := (p.components.foldl Place.step ⟨false, []⟩).path

/-! ## Relative paths -/

/-- The components that lead from a directory to a path, once their common start is passed.  `apart`
tells that they have gone separate ways. -/
def stepsFrom (apart : Bool) : List Component → List Component → Option (List Component)
  | path, [] => some path
  | [], _ :: base => (stepsFrom true [] base).map (.parent :: ·)
  | a :: path, b :: base =>
    if !apart && a = b then stepsFrom false path base
    else if b = .current then (stepsFrom true path base).map (a :: ·)
    else if b = .parent then none
    else some (.parent :: (base.map fun _ => .parent) ++ a :: path)

/-- The path from the directory `base` to `p`.  An absolute path is its own answer from a relative
directory; a relative one has none from an absolute directory. -/
def relativeTo? (p base : Path) : Option Path :=
  if p.isAbsolute = base.isAbsolute then
    (stepsFrom false p.components base.components).map ofComponents
  else if p.isAbsolute then some p
  else none

/-! ## Order -/

/-- Where a component stands among others: the root first, then dots, then names. -/
def Component.rank : Component → Nat
  | root => 0
  | current => 1
  | parent => 2
  | name _ => 3

/-- The order of components; names go by their code points. -/
def Component.lt (a b : Component) : Bool :=
  match a, b with
  | name s, name t => decide (s < t)
  | a, b => a.rank < b.rank

/-- The order of paths, component by component. -/
def le (p q : Path) : Bool := go p.components q.components
where
  go : List Component → List Component → Bool
    | [], _ => true
    | _ :: _, [] => false
    | a :: as, b :: bs => a.lt b || (!b.lt a && go as bs)

/-- The components of a path with slashes between them. -/
def slashed (p : Path) : Text := List.intercalate ['/'] (p.components.map Component.text)

end Path

end Docmark
