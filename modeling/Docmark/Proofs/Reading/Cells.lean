import Mathlib
import Docmark.Construct.Table
import Docmark.Proofs.Extent.Pending
import Docmark.Proofs.Reading.CodeBlocks

/-!
# The cells of a line are read back

A line of a table is written with a bar on either side of every cell, blanks between them, and a
backslash in front of each bar that belongs to a cell.  The blanks keep the marks apart from the
cells: the backslash at the end of a cell stands in front of a blank, never of the bar behind it,
and the bar at the end of the line stands behind one.  So splitting finds just the bars between
cells, and trimming takes the blanks off again.

## Main results

* `splitBars_escapedBars` — the characters of a cell are read one by one.
* `splitCells_writtenRow` — the cells of a written line are the cells that were written.
-/

namespace Docmark

/-- A cell as it is written: with a backslash in front of each bar. -/
def escapedBars (cell : Text) : Text := cell.flatMap fun c => if c = '|' then ['\\', '|'] else [c]

/-- What stands between two cells. -/
def cellBorder : Text := [' ', '|', ' ']

/-- The line of a table that has the given cells. -/
def writtenRow (cells : List Text) : Text :=
  '|' :: ' ' :: (List.intercalate cellBorder (cells.map escapedBars) ++ [' ', '|'])

/-! ## A cell -/

section Cell

variable {read : Text}

/-- A character is read by itself unless it is a backslash in front of a bar. -/
lemma splitBars_cons {c : Char} {cs : Text} (hc : c ≠ '|')
    (hcs : c = '\\' → cs.head? ≠ some '|') :
    splitBars read (c :: cs) = splitBars (c :: read) cs := by
  rw [splitBars.eq_def]
  split
  next h => cases h
  next after h =>
    cases h
    exact absurd rfl (hcs rfl)
  next c' cs' _ h =>
    cases h
    rw [if_neg hc]

lemma splitBars_blank (cs : Text) : splitBars read (' ' :: cs) = splitBars (' ' :: read) cs :=
  splitBars_cons (by decide) fun h => absurd h (by decide)

/-- A bar that no backslash precedes ends the cell. -/
lemma splitBars_bar (cs : Text) :
    splitBars read ('|' :: cs) = trim read.reverse :: splitBars [] cs := by
  simp [splitBars]

/-- What follows an escaped cell is no bar, so no backslash of the cell stands in front of one. -/
lemma head?_escapedBars_append (cell rest : Text) :
    (escapedBars cell ++ ' ' :: rest).head? ≠ some '|' := by
  cases cell with
  | nil => simp [escapedBars]
  | cons c cell =>
    by_cases hc : c = '|'
    · simp [escapedBars, hc]
    · simp [escapedBars, hc]

/-- **The characters of a cell are read one by one**, its bars with the backslashes in front of
them. -/
lemma splitBars_escapedBars (cell rest : Text) :
    splitBars read (escapedBars cell ++ ' ' :: rest) =
      splitBars (cell.reverse ++ read) (' ' :: rest) := by
  induction cell generalizing read with
  | nil => rfl
  | cons c cell ih =>
    rw [List.reverse_cons, List.append_assoc, List.singleton_append]
    by_cases hc : c = '|'
    · have hescaped : escapedBars (c :: cell) = '\\' :: '|' :: escapedBars cell := by
        simp [escapedBars, hc]
      rw [hescaped, List.cons_append, List.cons_append, splitBars, ih, hc]
    · have hescaped : escapedBars (c :: cell) = c :: escapedBars cell := by
        simp [escapedBars, hc]
      rw [hescaped, List.cons_append, splitBars_cons hc fun _ => head?_escapedBars_append cell rest,
        ih]

end Cell

/-! ## Trimming -/

lemma trim_of_ends {cs : Text} (hhead : ∀ c ∈ cs.head?, isSpace c = false)
    (hlast : ∀ c ∈ cs.getLast?, isSpace c = false) : trim cs = cs := by
  have hstart : trimStart cs = cs := by
    cases cs with
    | nil => rfl
    | cons c cs => exact List.dropWhile_cons_of_neg (by simp [hhead c rfl])
  rw [trim, hstart, trimEnd, dropEndWhile_of_getLast? hlast]

/-- A text that is trimmed neither starts nor ends with white space. -/
lemma trim_pieces_of_trim {cs : Text} (h : trim cs = cs) : trimStart cs = cs ∧ trimEnd cs = cs := by
  have hstart : trimStart cs = cs := by
    refine (List.dropWhile_suffix isSpace).eq_of_length_le ?_
    calc cs.length = (trim cs).length := by rw [h]
      _ ≤ (trimStart cs).length := (dropEndWhile_initial isSpace (trimStart cs)).length_le
  refine ⟨hstart, ?_⟩
  rwa [trim, hstart] at h

/-- The blanks that a cell is written with are taken off, and no more. -/
lemma trim_padded {cell : Text} (h : trim cell = cell) : trim (' ' :: (cell ++ [' '])) = cell := by
  obtain ⟨hstart, hend⟩ := trim_pieces_of_trim h
  have hfront : trimStart (' ' :: (cell ++ [' '])) = trimStart (cell ++ [' ']) := rfl
  cases cell with
  | nil => rfl
  | cons c cell =>
    have hc : isSpace c = false := by
      by_contra hc
      have hlength := congrArg List.length hstart
      rw [trimStart, List.dropWhile_cons_of_pos (by simpa using hc), List.length_cons] at hlength
      have := (List.dropWhile_suffix (l := cell) isSpace).length_le
      omega
    have hkeep : trimStart (c :: (cell ++ [' '])) = c :: cell ++ [' '] :=
      List.dropWhile_cons_of_neg (by simp [hc])
    rw [trim, hfront, List.cons_append, hkeep, trimEnd, dropEndWhile, List.reverse_concat,
      List.dropWhile_cons_of_pos (by decide), ← dropEndWhile, ← trimEnd, hend]

/-! ## A line -/

section Line

variable {cells : List Text}

lemma stripOuterBars_writtenRow (cells : List Text) :
    stripOuterBars (writtenRow cells) =
      ' ' :: (List.intercalate cellBorder (cells.map escapedBars) ++ [' ']) := by
  have hlast : (writtenRow cells).getLast? = some '|' := by
    rw [writtenRow, ← List.cons_append, ← List.cons_append, List.getLast?_append_cons]
    rfl
  have htrim : trim (writtenRow cells) = writtenRow cells := by
    refine trim_of_ends (fun c hc => ?_) (fun c hc => ?_)
    · obtain rfl : '|' = c := Option.some.inj hc
      decide
    · obtain rfl : '|' = c := Option.some.inj (hlast.symm.trans hc)
      decide
  rw [stripOuterBars, htrim, writtenRow]
  simp

/-- Each cell ends at its border, and the next one is read behind the blank of the border. -/
lemma splitBars_intercalate (hne : cells ≠ []) (h : ∀ cell ∈ cells, trim cell = cell) :
    splitBars [' '] (List.intercalate cellBorder (cells.map escapedBars) ++ [' ']) = cells := by
  induction cells with
  | nil => exact absurd rfl hne
  | cons cell cells ih =>
    obtain ⟨hcell, hcells⟩ := List.forall_mem_cons.1 h
    have htrim : trim (' ' :: (cell.reverse ++ [' '])).reverse = cell := by
      simpa using trim_padded hcell
    have hborder (rest : Text) : splitBars [' '] (escapedBars cell ++ ' ' :: '|' :: rest) =
        cell :: splitBars [] rest := by
      rw [splitBars_escapedBars, splitBars_blank, splitBars_bar, htrim]
    cases cells with
    | nil =>
      rw [List.map_singleton, List.intercalate_singleton, splitBars_escapedBars,
        splitBars_blank, splitBars, htrim]
    | cons next cells =>
      have hline : List.intercalate cellBorder ((cell :: next :: cells).map escapedBars) ++ [' '] =
          escapedBars cell ++ ' ' :: '|' :: ' ' ::
            (List.intercalate cellBorder ((next :: cells).map escapedBars) ++ [' ']) := by
        simp [List.intercalate, cellBorder]
      rw [hline, hborder, splitBars_blank, ih (by simp) hcells]

/-- **The cells of a line are read back.**  Any cells without white space at their ends, at least
one, are the cells of the line that is written with them: whatever bars and backslashes they hold,
and also where they are empty. -/
theorem splitCells_writtenRow (hne : cells ≠ []) (h : ∀ cell ∈ cells, trim cell = cell) :
    splitCells (writtenRow cells) = cells := by
  rw [splitCells, stripOuterBars_writtenRow, splitBars_blank,
    splitBars_intercalate hne h]

/-- An empty cell, one of backslashes, one of bars and backslashes, and one with blanks inside. -/
theorem splitCells_writtenRow_backslashes :
    [[], "\\\\".toList, "\\|\\||".toList, "a  b\\".toList] ≠ ([] : List Text) ∧
    (∀ cell ∈ ([[], "\\\\".toList, "\\|\\||".toList, "a  b\\".toList] : List Text),
      trim cell = cell) ∧
    splitCells "|  | \\\\ | \\\\|\\\\|\\| | a  b\\ |".toList =
      [[], "\\\\".toList, "\\|\\||".toList, "a  b\\".toList] := by
  have htrim : ∀ cell ∈ ([[], "\\\\".toList, "\\|\\||".toList, "a  b\\".toList] : List Text),
      trim cell = cell := by decide
  exact ⟨by simp, htrim, splitCells_writtenRow (by simp) htrim⟩

end Line

end Docmark
