import Docmark.Construct.Found
import Docmark.Construct.Line
import Docmark.Token.Block

/-!
# Blank lines, breaks, code and headings

The leaf blocks that are recognised by the shape of their lines.  Each recogniser reads the input at
a cursor and reports the characters that it covers, or declines.
-/

namespace Docmark

/-- The line feeds behind a construct that fills the rest of its line. -/
def lineFeedsAfter (cs : Text) : Nat := leadingNewlines (afterLine cs)

/-- What follows a construct that only padding may follow on its line: the text behind the line
feeds after it. -/
def lineTail? (cs : Text) : Option Text :=
  if (restOfLine cs).all isPad then some ((afterLine cs).dropWhile (· = '\n')) else none

/-- A line of blanks and tabs with its line feed. -/
def isPadLine (line : Text) : Bool :=
  line.getLast? == some '\n' && line.dropLast.all isPad

/-- Blank lines, or blanks and tabs up to the end of the input. -/
def blankLines? (cs : Text) : Option (Found Block.Leaf) :=
  let blank := ((lines cs).takeWhile isPadLine).flatten
  if blank ≠ [] then some ⟨blank.length, .newline⟩
  else if cs ≠ [] ∧ cs.all isPad then some ⟨cs.length, .newline⟩
  else none

/-- A thematic break with the line feeds behind it. -/
def thematicBreak? (cs : Text) : Option (Found Block.Leaf) :=
  let line := restOfLine cs
  let body := line.dropWhile (· = ' ')
  match body with
  | [] => none
  | c :: _ =>
    if line.length - body.length ≤ 3 ∧ (c = '-' ∨ c = '*' ∨ c = '_') ∧
        body.all (fun d => d == c || isPad d) ∧ 3 ≤ body.count c then
      some ⟨line.length + lineFeedsAfter cs, .hr⟩
    else none

/-! ## Code -/

/-- Code indented by four columns.  It may hold blank lines but ends with a line that is not
blank. -/
def indentedCode? (cs : Text) : Option (Found Block.Leaf) :=
  match lines cs with
  | [] => none
  | first :: rest =>
    if isBlank first ∨ indentation first < 4 then none
    else
      let run := rest.takeWhile fun l => isBlank l || decide (4 ≤ indentation l)
      let code := first :: (run.reverse.dropWhile isBlank).reverse
      some ⟨code.flatten.length,
        .code none (dropEndWhile (· = '\n') (code.flatMap (stripIndent 4)))⟩

/-- The opening line of fenced code. -/
structure Fence where
  indent : Nat
  mark : Char
  size : Nat
  /-- What follows the fence on its line, trimmed. -/
  info : Text

/-- The fence that opens at the start of a text.  Behind a fence of backticks no backtick may stand
on the line. -/
def fence? (cs : Text) : Option Fence :=
  let line := restOfLine cs
  let body := line.dropWhile (· = ' ')
  let indent := line.length - body.length
  match body with
  | [] => none
  | mark :: _ =>
    let size := (body.takeWhile (· = mark)).length
    let info := trim (body.drop size)
    if indent ≤ 3 ∧ (mark = '\x60' ∨ mark = '~') ∧ 3 ≤ size ∧ ¬ (mark = '\x60' ∧ '\x60' ∈ info) then
      some ⟨indent, mark, size, info⟩
    else none

/-- Whether a line closes fenced code: nothing but marks, at least as many as opened it. -/
def Fence.closedBy (f : Fence) (line : Text) : Bool :=
  let body := trim line
  decide (indentation line ≤ 3) && decide (f.size ≤ body.length) && body.all (· == f.mark)

/-- The lines of fenced code up to the closing one, and whether there is one. -/
def Fence.body (f : Fence) : List Text → List Text × Option Text
  | [] => ([], none)
  | line :: rest =>
    if f.closedBy line then ([], some line)
    else
      let (inner, closing) := f.body rest
      (line :: inner, closing)

/-- Fenced code, up to its closing fence or the end of the input. -/
def fencedCode? (cs : Text) : Option (Found Block.Leaf) :=
  match fence? cs with
  | none => none
  | some f =>
    let opening := (restOfLine cs).length + ((afterLine cs).take 1).length
    let (inner, closing) := f.body (lines (cs.drop opening))
    some ⟨opening + inner.flatten.length + (closing.getD []).length,
      .code (words f.info).head? (dropEndWhile (· = '\n') (inner.flatMap (stripIndent f.indent)))⟩

/-! ## Headings -/

/-- How strictly the hashes of a heading are read. -/
inductive HeadingStyle where
  /-- Any indentation, and no blank needed behind the hashes. -/
  | relaxed
  /-- At most three blanks in front, and white space behind the hashes. -/
  | strict
deriving DecidableEq

/-- A heading as it stands on its line. -/
structure HeadingLine where
  depth : Nat
  /-- The characters in front of the content. -/
  start : Nat
  content : Text

/-- `cs` without a run of `mark` at its end, with padding around the run. -/
def stripClosing (pad : Char → Bool) (mark : Char) (cs : Text) : Text :=
  dropEndWhile pad (dropEndWhile (· = mark) (dropEndWhile pad cs))

/-- A heading whose hashes may touch its content.  When the hashes and blanks fill the line, the
last of them is the content. -/
def relaxedHeading? (line : Text) : Option HeadingLine :=
  let body := line.dropWhile (· = ' ')
  let indent := line.length - body.length
  let run := min 6 (body.takeWhile (· = '#')).length
  let depth := if (body.drop run).isEmpty then run - 1 else run
  if depth = 0 then none
  else
    let after := body.drop depth
    let blanks := (after.takeWhile (· = ' ')).length
    let skipped := if blanks = after.length then blanks - 1 else blanks
    let rest := after.drop skipped
    let kept := max 1 (stripClosing (· = ' ') '#' rest).length
    some ⟨depth, indent + depth + skipped, rest.take kept⟩

/-- The content of a heading without a closing run of hashes, which white space must set off. -/
def stripClosingHashes (cs : Text) : Text :=
  let body := dropEndWhile isPad cs
  let open_ := dropEndWhile (· = '#') body
  if open_.length < body.length ∧ open_.getLast?.any isPad then dropEndWhile isPad open_ else body

/-- A heading whose hashes are followed by white space.  When white space fills the line, the last
of it is the content. -/
def strictHeading? (line : Text) : Option HeadingLine :=
  let body := line.dropWhile (· = ' ')
  let indent := line.length - body.length
  let depth := (body.takeWhile (· = '#')).length
  let after := body.drop depth
  let pads := (after.takeWhile isPad).length
  let skipped := if pads = after.length then pads - 1 else pads
  if 3 < indent ∨ depth = 0 ∨ 6 < depth ∨ skipped = 0 then none
  else
    let rest := after.drop skipped
    let kept := max 1 (stripClosingHashes rest).length
    some ⟨depth, indent + depth + skipped, rest.take kept⟩

/-- A heading read in one of the two styles. -/
def headingLine? : HeadingStyle → Text → Option HeadingLine
  | .relaxed => relaxedHeading?
  | .strict => strictHeading?

/-- A heading marked by hashes, with the line feeds behind it.  Where a level is given, only that
level is taken. -/
def heading? (style : HeadingStyle) (level : Option Nat) (scope : Scope) (cur : Cursor) :
    Option (Found Block.Leaf) :=
  match headingLine? style (restOfLine cur.rest) with
  | none => none
  | some h =>
    if level.any (· ≠ h.depth) then none
    else some ⟨(restOfLine cur.rest).length + lineFeedsAfter cur.rest,
      .pending ⟨.heading h.depth, h.content, cur.pointAt h.start, scope⟩⟩

/-- The depth that a line of underlining gives to the line above it. -/
def underlineDepth? (line : Text) : Option Nat :=
  let body := line.dropWhile (· = ' ')
  match body with
  | [] => none
  | mark :: _ =>
    let run := body.takeWhile (· = mark)
    if line.length - body.length ≤ 3 ∧ (mark = '=' ∨ mark = '-') ∧ 2 ≤ run.length ∧
        (body.drop run.length).all isPad then
      some (if mark = '=' then 1 else 2)
    else none

/-- A heading marked by the line under it. -/
def underlinedHeading? (scope : Scope) (cur : Cursor) : Option (Found Block.Leaf) :=
  let title := restOfLine cur.rest
  match afterLine cur.rest with
  | [] => none
  | _ :: below =>
    match underlineDepth? (restOfLine below) with
    | none => none
    | some depth =>
      if title.isEmpty ∨ interruptsParagraph true title ∨ (trimStart title).head? = some '<' then
        none
      else some ⟨title.length + 1 + (restOfLine below).length + lineFeedsAfter below,
        .pending ⟨.heading depth, trim title, cur.point, scope⟩⟩

/-! ## Paragraphs -/

/-- A block of the paragraph lines at the start of the input, with the line feeds behind them. -/
def paragraphBlock (form : Pending.Form) (paragraph : List Text) (scope : Scope) (cur : Cursor) :
    Found Block.Leaf :=
  let length := paragraph.flatten.length
  ⟨length + leadingNewlines (cur.rest.drop length),
    .pending ⟨form, joinParagraph paragraph, cur.point, scope⟩⟩

/-- A paragraph outside of list items. -/
def paragraph? (scope : Scope) (cur : Cursor) : Option (Found Block.Leaf) :=
  let paragraph := paragraphLines false (lines cur.rest)
  if scope.has Scope.isInList ∨ paragraph.all isBlank then none
  else some (paragraphBlock .paragraph paragraph scope cur)

/-- The paragraph that takes whatever no other block has taken. -/
def anyText (scope : Scope) (cur : Cursor) : Found Block.Leaf :=
  paragraphBlock .text (paragraphLines (scope.has Scope.isInList) (lines cur.rest)) scope cur

end Docmark
