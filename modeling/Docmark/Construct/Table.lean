import Docmark.Construct.Leaf

/-!
# Tables

A line with cells, a line of dashes that aligns them, and further lines with cells.  Bars separate
cells; a bar behind a backslash belongs to its cell.
-/

namespace Docmark

/-- Splits at bars, with `cell` as the cell being read, in reverse. -/
def splitBars (cell : Text) : Text → List Text
  | [] => [trim cell.reverse]
  | '\\' :: '|' :: cs => splitBars ('|' :: cell) cs
  | c :: cs => if c = '|' then trim cell.reverse :: splitBars [] cs else splitBars (c :: cell) cs

/-- A line without the bar at its start and the bar at its end, which belong to no cell. -/
def stripOuterBars (line : Text) : Text :=
  let body := match trim line with | '|' :: rest => rest | body => body
  match body.reverse with
  | '|' :: rest => if rest.head? = some '\\' then body else rest.reverse
  | _ => body

/-- The cells of a line. -/
def splitCells (line : Text) : List Text := splitBars [] (stripOuterBars line)

/-- How a cell of the dashed line aligns its column. -/
def cellAlignment (cell : Text) : Option Alignment :=
  match cell.head? == some ':', cell.getLast? == some ':' with
  | true, true => some .center
  | true, false => some .left
  | false, true => some .right
  | false, false => none

/-- Whether a cell is dashes with an optional colon at either end, and padding around them. -/
def isDashCell (cell : Text) : Bool :=
  let body := dropEndWhile isPad (cell.dropWhile isPad)
  let dashes := match body with | ':' :: rest => rest | _ => body
  let dashes := match dashes.reverse with | ':' :: rest => rest | rest => rest
  !dashes.isEmpty && dashes.all (· == '-')

/-- Whether a line is the dashed line of a table.  A bar in front may be indented by three blanks,
and a bar at the end may be followed by padding. -/
def isDashLine (line : Text) : Bool :=
  let pieces := splitOn '|' (if line.getLast? = some '\n' then line.dropLast else line)
  let pieces := match pieces with
    | first :: second :: rest =>
      if first.all (· = ' ') ∧ first.length ≤ 3 then second :: rest else pieces
    | _ => pieces
  let pieces := match pieces.reverse with
    | last :: second :: rest => if last.all isPad then (second :: rest).reverse else pieces
    | _ => pieces
  pieces.all isDashCell

/-- The cells of a row, cut or filled up to the number of columns. -/
def fitRow (columns : Nat) (cells : List Text) : List Text :=
  cells.take columns ++ List.replicate (columns - cells.length) []

/-- A table.  Its rows end at a blank line or at a line without a bar. -/
def table? (scope : Scope) (cur : Cursor) : Option (Found Block.Leaf) :=
  match lines cur.rest with
  | header :: dashed :: rest =>
    let cells := splitCells header
    let align := (splitCells dashed).map cellAlignment
    if '|' ∉ header ∨ ¬ isDashLine dashed ∨ cells.length ≠ align.length then none
    else
      let body := rest.takeWhile fun l => !isBlank l && l.contains '|'
      let rows := body.map fun l => fitRow cells.length (splitCells l)
      let length := header.length + dashed.length + body.flatten.length
      some ⟨length,
        .pending ⟨.table align cells rows, cur.rest.take length, cur.point, scope⟩⟩
  | _ => none

end Docmark
