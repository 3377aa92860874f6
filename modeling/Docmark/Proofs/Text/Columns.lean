import Mathlib
import Docmark.Proofs.Text.Lines

/-!
# Columns at the front of a line

The white space at the front of a line is measured in columns, and taken off by the column.  A tab
is worth one to four columns, by the place where it stands, but it is one character: it stays or
goes as a whole, and behind what has been taken off it stands at another place than in the line.  So
columns cannot always be taken off one by one.

What is taken off is told by `Strips`: the fewest blanks and tabs that reach the column asked for.
Whether that comes out even (`StripsExactly`) depends on two facts: columns are reached one by one
where there is no tab, and every fourth column is reached in any case (`Strips.indentation_le`); and
white space has the same width at two places, if it has no tab or the places are some fours apart,
but not otherwise (`indentFrom_eq_add_iff`).

## Main definitions

* `Strips` — what is taken off the front of a line up to a column.
* `StripsExactly` — as many columns are gone as asked for, and the rest keeps those that are left.
* `TabsEndBy` — no tab at the front of a line reaches behind a column.

## Main results

* `stripIndent_exact_iff` — what is taken off a line, and when that is as many columns as asked for
  and leaves the columns of the rest as they were.
-/

namespace Docmark

variable {c : Char} {w width : Nat} {line front rest pads : Text}

/-! ## The columns of blanks and tabs -/

/-- The column behind a blank or a tab that stands in column `w`. -/
def columnBehind (w : Nat) (c : Char) : Nat := if c = ' ' then w + 1 else w + (4 - w % 4)

lemma lt_columnBehind (w : Nat) (c : Char) : w < columnBehind w c := by
  rw [columnBehind]
  split <;> omega

lemma isPad_iff : isPad c = true ↔ c = ' ' ∨ c = '\t' := by
  simp [isPad]

lemma indentFrom_pad (h : isPad c = true) (w : Nat) (cs : Text) :
    indentFrom w (c :: cs) = indentFrom (columnBehind w c) cs := by
  rcases isPad_iff.1 h with rfl | rfl <;> rfl

lemma indentFrom_of_not_isPad (h : isPad c = false) (w : Nat) (cs : Text) :
    indentFrom w (c :: cs) = w := by
  obtain ⟨hblank, htab⟩ : c ≠ ' ' ∧ c ≠ '\t' := by simpa [isPad] using h
  rw [indentFrom, if_neg hblank, if_neg htab]

/-- White space in a row is measured piece by piece. -/
lemma indentFrom_append (hpads : ∀ c ∈ pads, isPad c = true) (w : Nat) (cs : Text) :
    indentFrom w (pads ++ cs) = indentFrom (indentFrom w pads) cs := by
  induction pads generalizing w with
  | nil => rfl
  | cons c pads ih =>
    obtain ⟨hc, hpads⟩ := List.forall_mem_cons.1 hpads
    rw [List.cons_append, indentFrom_pad hc, indentFrom_pad hc, ih hpads]

lemma indentFrom_takeWhile (w : Nat) (cs : Text) :
    indentFrom w (cs.takeWhile isPad) = indentFrom w cs := by
  induction cs generalizing w with
  | nil => rfl
  | cons c cs ih =>
    cases hc : isPad c with
    | true => rw [List.takeWhile_cons_of_pos hc, indentFrom_pad hc, indentFrom_pad hc, ih]
    | false =>
      rw [List.takeWhile_cons_of_neg (by simp [hc]), indentFrom_of_not_isPad hc]
      rfl

lemma lt_indentFrom (hpads : ∀ c ∈ pads, isPad c = true) (hne : pads ≠ []) :
    w < indentFrom w pads := by
  obtain ⟨c, pads, rfl⟩ := List.exists_cons_of_ne_nil hne
  rw [indentFrom_pad (hpads c List.mem_cons_self)]
  exact (lt_columnBehind w c).trans_le (le_indentFrom _ _)

/-! ## White space at two places -/

/-- Tabs end at every fourth column, so some fours further on white space is as wide. -/
lemma indentFrom_add_of_four_dvd {d : Nat} (h : 4 ∣ d) (w : Nat) (cs : Text) :
    indentFrom (d + w) cs = d + indentFrom w cs := by
  fun_induction indentFrom w cs with
  | case1 => rfl
  | case2 w cs ih =>
    rw [← ih]
    rfl
  | case3 w cs _ ih =>
    have hplace : d + w + (4 - (d + w) % 4) = d + (w + (4 - w % 4)) := by omega
    rw [← ih, ← hplace]
    rfl
  | case4 w c cs hblank htab => rw [indentFrom, if_neg hblank, if_neg htab]

/-- Blanks are as wide anywhere. -/
lemma indentFrom_of_no_tab (hpads : ∀ c ∈ pads, isPad c = true) (h : '\t' ∉ pads) (w : Nat) :
    indentFrom w pads = w + pads.length := by
  induction pads generalizing w with
  | nil => rfl
  | cons c pads ih =>
    obtain ⟨hc, hrest⟩ := List.forall_mem_cons.1 hpads
    obtain ⟨htab, hnone⟩ := not_or.1 (mt List.mem_cons.2 h)
    obtain rfl : c = ' ' := (isPad_iff.1 hc).resolve_right (Ne.symm htab)
    rw [indentFrom_pad hc, ih hrest hnone, columnBehind, if_pos rfl, List.length_cons]
    omega

/-- White space is as wide in column `d` as at the start of a line, if `d` is a multiple of four or
there is no tab, and only then. -/
lemma indentFrom_eq_add_iff {d : Nat} (hpads : ∀ c ∈ pads, isPad c = true) :
    indentFrom d pads = d + indentFrom 0 pads ↔ 4 ∣ d ∨ '\t' ∉ pads := by
  constructor
  · intro h
    refine or_iff_not_imp_right.2 fun htab => ?_
    obtain ⟨before, after, rfl⟩ := List.append_of_mem (not_not.1 htab)
    have hbefore : ∀ c ∈ before, isPad c = true := fun c hc => hpads c (List.mem_append_left _ hc)
    -- whatever stands in front of the tab, behind it the column is a multiple of four
    have hbehind (w : Nat) : ∃ k, indentFrom w (before ++ '\t' :: after) =
        4 * k + indentFrom 0 after := by
      obtain ⟨k, hk⟩ : 4 ∣ columnBehind (indentFrom w before) '\t' := by
        rw [columnBehind, if_neg (by decide)]
        omega
      refine ⟨k, ?_⟩
      rw [indentFrom_append hbefore, indentFrom_pad (by decide), hk]
      exact indentFrom_add_of_four_dvd (Nat.dvd_mul_right 4 k) 0 after
    obtain ⟨k, hk⟩ := hbehind d
    obtain ⟨l, hl⟩ := hbehind 0
    omega
  · rintro (hfour | hblanks)
    · exact indentFrom_add_of_four_dvd hfour 0 pads
    · rw [indentFrom_of_no_tab hpads hblanks, indentFrom_of_no_tab hpads hblanks, Nat.zero_add]

/-! ## What is taken off -/

/-- From the front of a line that starts in column `w`, what is taken off up to column `width`, and
what is left: blanks and tabs are taken off with which the column is reached, or all there are, and
none of which could have stayed. -/
structure Strips (width w : Nat) (line front rest : Text) : Prop where
  pads : ∀ c ∈ front, isPad c = true
  split : line = front ++ rest
  reaches : min width (indentFrom w line) ≤ indentFrom w front
  needed : ∀ before c after, front = before ++ c :: after →
    indentFrom w before < min width (indentFrom w line)

lemma Strips.nothing (h : min width (indentFrom w line) ≤ w) : Strips width w line [] line where
  pads := by simp
  split := rfl
  reaches := h
  needed := by simp

/-- A blank or a tab in front of the column is taken off, whatever follows it. -/
lemma Strips.cons (hc : isPad c = true) (hw : w < width)
    (h : Strips width (columnBehind w c) line front rest) :
    Strips width w (c :: line) (c :: front) rest where
  pads := List.forall_mem_cons.2 ⟨hc, h.pads⟩
  split := by rw [List.cons_append, ← h.split]
  reaches := by
    rw [indentFrom_pad hc, indentFrom_pad hc]
    exact h.reaches
  needed before d after hfront := by
    rw [indentFrom_pad hc]
    cases before with
    | nil => exact lt_min hw ((lt_columnBehind w c).trans_le (le_indentFrom _ line))
    | cons e before =>
      obtain ⟨rfl, hfront'⟩ := List.cons.inj hfront
      rw [indentFrom_pad hc]
      exact h.needed before d after hfront'

lemma stripIndentFrom_pad (hc : isPad c = true) (hw : w < width) (line : Text) :
    stripIndentFrom width w (c :: line) = stripIndentFrom width (columnBehind w c) line := by
  rw [stripIndentFrom, if_neg (not_le.2 hw)]
  rcases isPad_iff.1 hc with rfl | rfl <;> rfl

lemma exists_strips (width w : Nat) (line : Text) :
    ∃ front, Strips width w line front (stripIndentFrom width w line) := by
  induction line generalizing w with
  | nil => exact ⟨[], .nothing (min_le_right _ _)⟩
  | cons c line ih =>
    by_cases hdone : width ≤ w
    · rw [stripIndentFrom, if_pos hdone]
      exact ⟨[], .nothing ((min_le_left _ _).trans hdone)⟩
    · cases hc : isPad c with
      | true =>
        obtain ⟨front, h⟩ := ih (columnBehind w c)
        rw [stripIndentFrom_pad hc (not_le.1 hdone)]
        exact ⟨c :: front, h.cons hc (not_le.1 hdone)⟩
      | false =>
        obtain ⟨hblank, htab⟩ : c ≠ ' ' ∧ c ≠ '\t' := by simpa [isPad] using hc
        rw [stripIndentFrom, if_neg hdone, if_neg hblank, if_neg htab]
        refine ⟨[], .nothing ?_⟩
        rw [indentFrom_of_not_isPad hc]
        exact min_le_right _ _

/-- No tab at the front of a line ends behind a column. -/
def TabsEndBy (width : Nat) (line : Text) : Prop :=
  ∀ front, front ++ ['\t'] <+: line.takeWhile isPad → indentation (front ++ ['\t']) ≤ width

/-- White space is taken off exactly: blanks and tabs at the front of the line, as many columns of
them as asked for, or as there are; and the columns that are left are those of the rest. -/
def StripsExactly (width : Nat) (line : Text) : Prop :=
  ∃ front, (∀ c ∈ front, isPad c = true) ∧ line = front ++ stripIndent width line ∧
    indentation front = min width (indentation line) ∧
    indentation (stripIndent width line) + indentation front = indentation line

namespace Strips

variable (h : Strips width 0 line front rest)

include h

/-- The white space of a line is what is taken off and what is left of it. -/
lemma takeWhile_eq : line.takeWhile isPad = front ++ rest.takeWhile isPad := by
  rw [h.split]
  exact List.takeWhile_append_of_pos h.pads

lemma indentation_eq :
    indentation line = indentFrom (indentation front) (rest.takeWhile isPad) := by
  rw [indentation, ← indentFrom_takeWhile, h.takeWhile_eq, indentFrom_append h.pads]
  rfl

/-- No more columns are taken off than asked for, if they are some fours or no tab ends behind
them. -/
lemma indentation_le (heven : 4 ∣ width ∨ TabsEndBy width line) : indentation front ≤ width := by
  rcases List.eq_nil_or_concat front with rfl | ⟨before, c, rfl⟩
  · exact Nat.zero_le width
  · rw [List.concat_eq_append] at h ⊢
    have hlast : indentation (before ++ [c]) = columnBehind (indentation before) c := by
      rw [indentation, indentFrom_append fun d hd => h.pads d (List.mem_append_left _ hd),
        indentFrom_pad (h.pads c (by simp))]
      rfl
    have hbefore : indentation before < width :=
      (h.needed before c [] rfl).trans_le (min_le_left _ _)
    rcases isPad_iff.1 (h.pads c (by simp)) with rfl | rfl
    · rw [hlast, columnBehind, if_pos rfl]
      exact hbefore
    · rcases heven with hfour | htabs
      · rw [hlast, columnBehind, if_neg (by decide)]
        omega
      · refine htabs before ?_
        rw [h.takeWhile_eq]
        exact List.prefix_append _ _

/-- Where there is no tab in the white space that is left, all tabs end within what is taken off. -/
lemma tabsEndBy (hblanks : '\t' ∉ rest.takeWhile isPad) : TabsEndBy (indentation front) line := by
  rintro before ⟨after, hbefore⟩
  rw [h.takeWhile_eq] at hbefore
  rcases List.append_eq_append_iff.1 hbefore with ⟨between, rfl, -⟩ | ⟨between, htab, hrest⟩
  · have hends := fun c hc => h.pads c (List.mem_append_left between hc)
    rw [indentation, indentation, indentFrom_append hends]
    exact le_indentFrom _ between
  · rcases List.eq_nil_or_concat between with rfl | ⟨between, c, rfl⟩
    · rw [htab, List.append_nil]
    · rw [List.concat_eq_append, ← List.append_assoc] at htab
      obtain ⟨-, hc⟩ := List.append_inj' htab rfl
      obtain rfl : '\t' = c := (List.cons.inj hc).1
      exact absurd (hrest ▸ by simp) hblanks

/-- Where tabs end by a column that is reached, none is left. -/
lemma tab_not_mem (htabs : TabsEndBy width line) (hreached : width ≤ indentation front) :
    '\t' ∉ rest.takeWhile isPad := by
  intro htab
  obtain ⟨before, after, hrest⟩ := List.append_of_mem htab
  have hinitial : before ++ ['\t'] <+: rest.takeWhile isPad := hrest ▸ ⟨after, by simp⟩
  have hpads : ∀ c ∈ before ++ ['\t'], isPad c = true :=
    fun c hc => List.mem_takeWhile_imp (hinitial.subset hc)
  have hends : indentation (front ++ before ++ ['\t']) ≤ width := by
    refine htabs (front ++ before) ?_
    rw [h.takeWhile_eq, List.append_assoc]
    exact (List.prefix_append_right_inj front).2 hinitial
  rw [List.append_assoc, indentation, indentFrom_append h.pads] at hends
  have hlt : indentation front < indentFrom (indentation front) (before ++ ['\t']) :=
    lt_indentFrom hpads (by simp)
  exact absurd (hlt.trans_le hends) (not_lt.2 hreached)

/-- All the white space is taken off, if it is no wider than the columns asked for. -/
lemma indentation_of_le (hall : indentation line ≤ width) :
    indentation front = indentation line ∧ indentation rest = 0 := by
  have hreaches : indentation line ≤ indentation front := (le_min hall le_rfl).trans h.reaches
  have hnil : rest.takeWhile isPad = [] := by
    by_contra hne
    have hlt : indentation front < indentFrom (indentation front) (rest.takeWhile isPad) :=
      lt_indentFrom (fun c hc => List.mem_takeWhile_imp hc) hne
    rw [← h.indentation_eq] at hlt
    exact absurd hreaches (not_le.2 hlt)
  refine ⟨?_, ?_⟩
  · rw [h.indentation_eq, hnil]
    rfl
  · rw [indentation, ← indentFrom_takeWhile, hnil]
    rfl

/-- The columns of a line are those taken off and those of the rest, if and only if the rest has no
tab or is moved by some fours. -/
lemma indentation_add_iff :
    indentation rest + indentation front = indentation line ↔
      4 ∣ indentation front ∨ '\t' ∉ rest.takeWhile isPad := by
  rw [← indentFrom_eq_add_iff fun c hc => List.mem_takeWhile_imp hc, ← h.indentation_eq,
    indentFrom_takeWhile, eq_comm, Nat.add_comm]
  rfl

end Strips

lemma stripsExactly_iff (h : Strips width 0 line front (stripIndent width line)) :
    StripsExactly width line ↔ indentation front = min width (indentation line) ∧
      indentation (stripIndent width line) + indentation front = indentation line := by
  constructor
  · rintro ⟨front', -, hsplit, hexact⟩
    obtain rfl : front' = front := List.append_cancel_right (hsplit.symm.trans h.split)
    exact hexact
  · intro hexact
    exact ⟨front, h.pads, h.split, hexact⟩

/-- **When columns are taken off exactly.**  For every line and every number of columns, blanks and
tabs are taken off the front of the line, the fewest that reach the column, or all if there are not
so many columns.  They make up as many columns as asked for or as there are, and leave a rest of as
many columns as are left of the line, if and only if the line has no more columns than asked for,
or these are a multiple of four, or no tab at the front of the line ends behind them. -/
theorem stripIndent_exact_iff (width : Nat) (line : Text) :
    (∃ front, Strips width 0 line front (stripIndent width line)) ∧
    (StripsExactly width line ↔
      indentation line ≤ width ∨ 4 ∣ width ∨ TabsEndBy width line) := by
  obtain ⟨front, h⟩ : ∃ front, Strips width 0 line front (stripIndent width line) :=
    exists_strips width 0 line
  refine ⟨⟨front, h⟩, ?_⟩
  rw [stripsExactly_iff h, h.indentation_add_iff]
  rcases le_or_gt (indentation line) width with hall | hmore
  · -- all white space goes, and no tab is left
    obtain ⟨hfront, hrest⟩ := h.indentation_of_le hall
    have hsum := h.indentation_add_iff.1 (by rw [hfront, hrest, Nat.zero_add])
    exact ⟨fun _ => .inl hall, fun _ => ⟨by rw [hfront, min_eq_right hall], hsum⟩⟩
  · have hreached : width ≤ indentation front := (le_min le_rfl hmore.le).trans h.reaches
    rw [min_eq_left hmore.le]
    constructor
    · rintro ⟨hfront, hfour | hblanks⟩
      · exact .inr (.inl (hfront ▸ hfour))
      · exact .inr (.inr (hfront ▸ h.tabsEndBy hblanks))
    · rintro (hall | heven)
      · exact absurd hall (not_le.2 hmore)
      · have hfront : indentation front = width := le_antisymm (h.indentation_le heven) hreached
        exact ⟨hfront, heven.imp (hfront ▸ ·) fun htabs => h.tab_not_mem htabs hreached⟩

/-- Where two columns are to go, a tab goes as a whole, and four columns with it; and a tab behind
two blanks stays, and makes four columns of the two that are left. -/
theorem stripIndent_of_straddling_tab :
    ¬ StripsExactly 2 "\t  b".toList ∧ ¬ StripsExactly 2 "  \tb".toList := by
  refine ⟨?_, ?_⟩
  · rintro ⟨front, -, hsplit, hcolumns, -⟩
    obtain rfl : front = ['\t'] := List.append_cancel_right (hsplit.symm.trans rfl)
    exact absurd hcolumns (by decide)
  · rintro ⟨front, -, hsplit, -, hsum⟩
    obtain rfl : front = [' ', ' '] := List.append_cancel_right (hsplit.symm.trans rfl)
    exact absurd hsum (by decide)

end Docmark
