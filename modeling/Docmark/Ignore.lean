import Docmark.Glob.Reading
import Docmark.Path

/-!
# Ignore patterns

Patterns that leave files and directories out, one a line.  The last pattern that matches a path
decides, and one that starts with an exclamation mark takes the path back in.  A pattern with a
slash before its end starts at the directory of the patterns, any other one matches names at every
depth, and a slash at the end restricts it to directories.
-/

namespace Docmark

open Glob (Pattern)

/-- A line of ignore patterns. -/
structure IgnoreRule where
  pattern : Pattern
  /-- Whether the line takes matching paths back in. -/
  negated : Bool
  /-- Whether the line is about directories only. -/
  dirsOnly : Bool

namespace IgnoreRule

/-- What a line says, as a pattern without its marks. -/
structure Marks where
  negated : Bool
  /-- Whether a slash at the start ties the pattern to the directory of the patterns. -/
  anchored : Bool
  rest : Text

/-- Takes off the marks at the start of a line.  A backslash takes the meaning from the first
character. -/
def marks (line : Text) : Marks :=
  match line with
  | '\\' :: '!' :: cs => ⟨false, false, '!' :: cs⟩
  | '\\' :: '#' :: cs => ⟨false, false, '#' :: cs⟩
  | _ =>
    let negated := line.head? == some '!'
    let line := if negated then line.tail else line
    if line.head? = some '/' then ⟨negated, true, line.tail⟩ else ⟨negated, false, line⟩

/-- Takes off a slash at the end, and a backslash in front of it. -/
def dropLastSlash (cs : Text) : Bool × Text :=
  if cs.getLast? = some '/' then
    let cs := cs.dropLast
    (true, if cs.getLast? = some '\\' then cs.dropLast else cs)
  else (false, cs)

/-- The glob pattern for a line without marks.  Without a slash in it, it matches at every depth;
one for everything below a directory leaves the directory itself out. -/
def globText (anchored : Bool) (cs : Text) : Text :=
  let deep := !anchored && !cs.contains '/' && cs ≠ "**".toList
  let cs := if deep then "**/".toList ++ cs else cs
  if "/**".toList.isSuffixOf cs then cs ++ "/*".toList else cs

/-- A line without the white space at its end, unless a backslash keeps a blank there. -/
def trimLine (line : Text) : Text := if "\\ ".toList.isSuffixOf line then line else trimEnd line

/-- Reads a line with a pattern. -/
def parse? (line : Text) : Option IgnoreRule := do
  let m := marks line
  let (dirsOnly, rest) := dropLastSlash m.rest
  let tokens ← Glob.tokens? true (globText m.anchored rest)
  return ⟨⟨tokens, true⟩, m.negated, dirsOnly⟩

/-- Whether a line is about a path, as seen from the directory of the patterns. -/
def covers (r : IgnoreRule) (p : Path) (isDir : Bool) : Bool :=
  (!r.dirsOnly || isDir) && r.pattern.accepts p

end IgnoreRule

/-- Ignore patterns, in order. -/
abbrev IgnoreRules := List IgnoreRule

namespace IgnoreRules

/-- Whether some ignore patterns leave a path out: the last one that is about the path decides. -/
def ignores (rules : IgnoreRules) (p : Path) (isDir : Bool) : Bool :=
  match rules.reverse.find? (·.covers p isDir) with
  | some r => !r.negated
  | none => false

/-- The rule of a line: none for a line without a pattern. -/
def ofLine? (line : Text) : Option IgnoreRules :=
  if line.head? = some '#' then some []
  else
    let line := IgnoreRule.trimLine line
    if line.isEmpty then some [] else (IgnoreRule.parse? line).map ([·])

/-- The rules of some lines; a line that cannot be read does not count. -/
def ofLines (lines : List Text) : IgnoreRules := lines.flatMap fun l => (ofLine? l).getD []

end IgnoreRules

/-- Takes a text off the start of another. -/
def dropStart? (start cs : Text) : Option Text :=
  if start.isPrefixOf cs then some (cs.drop start.length) else none

/-- A path as ignore patterns at `root` see it.  This goes by the letters of the two: a leading dot
is taken off both, then the root from the start of the path, and then a slash. -/
def ignorePath (root p : Path) : Path :=
  let root := (dropStart? "./".toList root).getD root
  let p := (dropStart? "./".toList p).getD p
  if root = ['.'] ∨ !p.contains '/' then p
  else match dropStart? root p with
    | some rest => (dropStart? ['/'] rest).getD rest
    | none => p

end Docmark
