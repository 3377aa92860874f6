import Mathlib
import Docmark.Construct.Html
import Docmark.Construct.Table
import Docmark.Proofs.Extent.Line

/-!
# The extent of block leaves

Blank lines, code, breaks, headings, paragraphs, tables and raw HTML cover at least one character
and no more than there are.  The recognisers of this file count characters forward: by lines, by the
rest of a line, or by the position of a closing mark.
-/

namespace Docmark

/-! ## Lines and breaks -/

lemma blankLines?_fits {cs : Text} {m : Found Block.Leaf} (h : blankLines? cs = some m) :
    m.Fits cs := by
  simp only [blankLines?] at h
  split at h
  next hblank =>
    cases h
    refine fits_of_lines (List.takeWhile_prefix _) ?_
    rintro hnil
    exact hblank (by rw [hnil, List.flatten_nil])
  next =>
    split at h
    next hpad =>
      cases h
      exact ⟨List.length_pos_iff.2 hpad.1, le_rfl⟩
    next => cases h

/-- What stands on the first line, and the line feeds behind it, fit. -/
lemma restOfLine_add_lineFeedsAfter_le (cs : Text) :
    (restOfLine cs).length + lineFeedsAfter cs ≤ cs.length := by
  have h := leadingNewlines_le (afterLine cs)
  have hlen := length_restOfLine_add_afterLine cs
  simp only [lineFeedsAfter]
  omega

lemma fits_of_restOfLine {α : Type} {v : α} {cs : Text} (h : restOfLine cs ≠ []) :
    (⟨(restOfLine cs).length + lineFeedsAfter cs, v⟩ : Found α).Fits cs :=
  ⟨Nat.add_pos_left (List.length_pos_iff.2 h) _, restOfLine_add_lineFeedsAfter_le cs⟩

lemma thematicBreak?_fits {cs : Text} {m : Found Block.Leaf} (h : thematicBreak? cs = some m) :
    m.Fits cs := by
  simp only [thematicBreak?] at h
  split at h
  next => cases h
  next c tail hbody =>
    split at h
    next =>
      cases h
      refine fits_of_restOfLine ?_
      intro hnil
      rw [hnil] at hbody
      cases hbody
    next => cases h

/-! ## Code -/

lemma indentedCode?_fits {cs : Text} {m : Found Block.Leaf} (h : indentedCode? cs = some m) :
    m.Fits cs := by
  simp only [indentedCode?] at h
  split at h
  next => cases h
  next first rest hlines =>
    split at h
    next => cases h
    next =>
      cases h
      refine fits_of_lines ?_ (List.cons_ne_nil _ _)
      rw [hlines]
      set run := rest.takeWhile fun l => isBlank l || decide (4 ≤ indentation l) with hrun
      -- without the lines dropped at its end, a run is still the start of the text
      have hdrop : (run.reverse.dropWhile isBlank).reverse <+: run := by
        rw [← List.reverse_suffix, List.reverse_reverse]
        exact List.dropWhile_suffix _
      exact (List.prefix_cons_inj first).2 (hdrop.trans (hrun ▸ List.takeWhile_prefix _))

/-- The lines inside fenced code and the closing one are the first lines of the text. -/
lemma Fence.body_prefix (f : Fence) (ls : List Text) :
    (f.body ls).1 ++ (f.body ls).2.toList <+: ls := by
  induction ls with
  | nil => exact List.nil_prefix
  | cons l ls ih =>
    simp only [Fence.body]
    split
    next => exact (List.prefix_cons_inj l).2 List.nil_prefix
    next => exact (List.prefix_cons_inj l).2 ih

lemma fence?_restOfLine_ne_nil {cs : Text} {f : Fence} (h : fence? cs = some f) :
    restOfLine cs ≠ [] := by
  intro hnil
  simp [fence?, hnil] at h

lemma fencedCode?_fits {cs : Text} {m : Found Block.Leaf} (h : fencedCode? cs = some m) :
    m.Fits cs := by
  simp only [fencedCode?] at h
  split at h
  next => cases h
  next f hf =>
    cases h
    have hpos := List.length_pos_iff.2 (fence?_restOfLine_ne_nil hf)
    set opening := (restOfLine cs).length + ((afterLine cs).take 1).length with hopening
    have hle : opening ≤ cs.length := by
      have := length_restOfLine_add_afterLine cs
      rw [hopening, List.length_take]
      omega
    have hbody := length_flatten_le (f.body_prefix (lines (cs.drop opening)))
    have hclosing : ((f.body (lines (cs.drop opening))).2.getD []).length =
        (f.body (lines (cs.drop opening))).2.toList.flatten.length := by
      cases (f.body (lines (cs.drop opening))).2 <;> simp
    rw [List.flatten_append, List.length_append, List.length_drop, ← hclosing] at hbody
    constructor
    · show 0 < opening + _ + _
      omega
    · show opening + _ + _ ≤ cs.length
      omega

/-! ## Headings and paragraphs -/

lemma headingLine?_ne_nil {style : HeadingStyle} {line : Text} {h : HeadingLine}
    (hline : headingLine? style line = some h) : line ≠ [] := by
  rintro rfl
  cases style <;> simp [headingLine?, relaxedHeading?, strictHeading?] at hline

/-- What is kept of a text behind two runs at the start of its body. -/
lemma hasSlice_behind {line body : Text} {depth skipped : Nat} (hbody : body <:+ line)
    (hdepth : depth ≤ body.length) (hskipped : skipped ≤ (body.drop depth).length) (kept : Nat) :
    HasSlice line (line.length - body.length + depth + skipped)
      (((body.drop depth).drop skipped).take kept) := by
  obtain ⟨indent, rfl⟩ := hbody
  refine ⟨indent ++ body.take depth ++ (body.drop depth).take skipped,
    ((body.drop depth).drop skipped).drop kept, ?_, ?_⟩
  · rw [List.append_assoc _ _ (List.drop kept _), List.take_append_drop, List.append_assoc,
      List.take_append_drop, List.append_assoc, List.take_append_drop]
  · simp only [List.length_append, List.length_take]
    omega

lemma ite_pred_le (p : Prop) [Decidable p] (n : Nat) : (if p then n - 1 else n) ≤ n := by
  split <;> omega

/-- The content of a heading is a piece of its line. -/
lemma headingLine?_hasSlice {style : HeadingStyle} {line : Text} {h : HeadingLine}
    (hline : headingLine? style line = some h) : HasSlice line h.start h.content := by
  cases style with
  | relaxed =>
    have hline : relaxedHeading? line = some h := hline
    unfold relaxedHeading? at hline
    extract_lets body indent run depth at hline
    split at hline
    next => cases hline
    next after blanks skipped rest kept _ =>
      have hbody : body <:+ line := List.dropWhile_suffix _
      have hdepth : depth ≤ body.length :=
        (ite_pred_le _ _).trans ((min_le_right _ _).trans (length_takeWhile_le _))
      have hskipped : skipped ≤ after.length := (ite_pred_le _ _).trans (length_takeWhile_le _)
      clear_value kept skipped depth body
      cases hline
      exact hasSlice_behind hbody hdepth hskipped kept
  | strict =>
    have hline : strictHeading? line = some h := hline
    unfold strictHeading? at hline
    extract_lets body indent depth after pads skipped at hline
    split at hline
    next => cases hline
    next rest kept _ =>
      have hbody : body <:+ line := List.dropWhile_suffix _
      have hdepth : depth ≤ body.length := length_takeWhile_le _
      have hskipped : skipped ≤ after.length := (ite_pred_le _ _).trans (length_takeWhile_le _)
      clear_value kept skipped depth body
      cases hline
      exact hasSlice_behind hbody hdepth hskipped kept

section Heading

variable {scope : Scope} {cur : Cursor} {m : Found Block.Leaf}

/-- A heading covers its line and the line feeds behind, and leaves its content pending. -/
lemma exists_of_heading? {style : HeadingStyle} {level : Option Nat}
    (h : heading? style level scope cur = some m) :
    ∃ hd, headingLine? style (restOfLine cur.rest) = some hd ∧
      m = ⟨(restOfLine cur.rest).length + lineFeedsAfter cur.rest,
        .pending ⟨.heading hd.depth, hd.content, cur.pointAt hd.start, scope⟩⟩ := by
  simp only [heading?] at h
  split at h
  next => cases h
  next hd hhd =>
    split at h
    next => cases h
    next =>
      cases h
      exact ⟨hd, hhd, rfl⟩

/-- An underlined heading covers two lines and the line feeds behind, and leaves the first line
pending. -/
lemma exists_of_underlinedHeading? (h : underlinedHeading? scope cur = some m) :
    ∃ c below depth, afterLine cur.rest = c :: below ∧
      underlineDepth? (restOfLine below) = some depth ∧
      m = ⟨(restOfLine cur.rest).length + 1 + (restOfLine below).length + lineFeedsAfter below,
        .pending ⟨.heading depth, trim (restOfLine cur.rest), cur.point, scope⟩⟩ := by
  simp only [underlinedHeading?] at h
  split at h
  next => cases h
  next c below hbelow =>
    split at h
    next => cases h
    next depth hdepth =>
      split at h
      next => cases h
      next =>
        cases h
        exact ⟨c, below, depth, hbelow, hdepth, rfl⟩

lemma heading?_fits {style : HeadingStyle} {level : Option Nat}
    (h : heading? style level scope cur = some m) : m.Fits cur.rest := by
  obtain ⟨hd, hhd, rfl⟩ := exists_of_heading? h
  exact fits_of_restOfLine (headingLine?_ne_nil hhd)

lemma underlinedHeading?_fits (h : underlinedHeading? scope cur = some m) : m.Fits cur.rest := by
  obtain ⟨c, below, depth, hbelow, -, rfl⟩ := exists_of_underlinedHeading? h
  have htitle := length_restOfLine_add_afterLine cur.rest
  rw [hbelow, List.length_cons] at htitle
  have hle := restOfLine_add_lineFeedsAfter_le below
  constructor
  · show 0 < _ + 1 + _ + _
    omega
  · show _ + 1 + _ + _ ≤ cur.rest.length
    omega

end Heading

lemma paragraphLines_initial (lists : Bool) (ls : List Text) : paragraphLines lists ls <+: ls := by
  cases ls with
  | nil => exact List.nil_prefix
  | cons l ls =>
    simp only [paragraphLines]
    split
    · exact (List.prefix_cons_inj l).2 List.nil_prefix
    · exact (List.prefix_cons_inj l).2 (List.takeWhile_prefix _)

lemma paragraphLines_ne_nil {lists : Bool} {ls : List Text} (h : ls ≠ []) :
    paragraphLines lists ls ≠ [] := by
  obtain ⟨l, ls, rfl⟩ := List.exists_cons_of_ne_nil h
  simp only [paragraphLines]
  split <;> exact List.cons_ne_nil _ _

lemma paragraphBlock_fits {form : Pending.Form} {paragraph : List Text} {scope : Scope}
    {cur : Cursor} (h : paragraph <+: lines cur.rest) (hne : paragraph ≠ []) :
    (paragraphBlock form paragraph scope cur).Fits cur.rest :=
  ⟨Nat.add_pos_left (length_flatten_pos h hne) _, add_leadingNewlines_le (length_flatten_le h)⟩

/-- A paragraph stands outside of items and is not blank. -/
lemma paragraph?_eq_some {scope : Scope} {cur : Cursor} {m : Found Block.Leaf}
    (h : paragraph? scope cur = some m) :
    scope.has Scope.isInList = false ∧
      (paragraphLines false (lines cur.rest)).all isBlank = false ∧
      m = paragraphBlock .paragraph (paragraphLines false (lines cur.rest)) scope cur := by
  simp only [paragraph?] at h
  split at h
  next => cases h
  next hnot =>
    cases h
    rw [not_or, Bool.not_eq_true, Bool.not_eq_true] at hnot
    exact ⟨hnot.1, hnot.2, rfl⟩

lemma paragraph?_fits {scope : Scope} {cur : Cursor} {m : Found Block.Leaf}
    (h : paragraph? scope cur = some m) : m.Fits cur.rest := by
  obtain ⟨-, hblank, rfl⟩ := paragraph?_eq_some h
  refine paragraphBlock_fits (paragraphLines_initial _ _) ?_
  intro hnil
  simp [hnil] at hblank

/-- The paragraph that takes whatever is left takes something wherever something is left. -/
lemma anyText_fits {scope : Scope} {cur : Cursor} (h : cur.rest ≠ []) :
    (anyText scope cur).Fits cur.rest :=
  paragraphBlock_fits (paragraphLines_initial _ _) (paragraphLines_ne_nil (by simpa using h))

/-! ## Tables -/

/-- A table covers a line of headers, as many dashes below and rows, and leaves them pending. -/
lemma exists_of_table? {scope : Scope} {cur : Cursor} {m : Found Block.Leaf}
    (h : table? scope cur = some m) :
    ∃ header dashed body, header :: dashed :: body <+: lines cur.rest ∧
      (splitCells header).length = ((splitCells dashed).map cellAlignment).length ∧
      m = ⟨header.length + dashed.length + body.flatten.length,
        .pending ⟨.table ((splitCells dashed).map cellAlignment) (splitCells header)
            (body.map fun l => fitRow (splitCells header).length (splitCells l)),
          cur.rest.take (header.length + dashed.length + body.flatten.length), cur.point,
          scope⟩⟩ := by
  simp only [table?] at h
  split at h
  next header dashed rest hlines =>
    split at h
    next => cases h
    next hcolumns =>
      cases h
      refine ⟨header, dashed, _, ?_, by tauto, rfl⟩
      rw [hlines]
      exact (List.prefix_cons_inj _).2 ((List.prefix_cons_inj _).2 (List.takeWhile_prefix _))
  next => cases h

lemma table?_fits {scope : Scope} {cur : Cursor} {m : Found Block.Leaf}
    (h : table? scope cur = some m) : m.Fits cur.rest := by
  obtain ⟨header, dashed, body, hprefix, -, rfl⟩ := exists_of_table? h
  have hfits := fits_of_lines (v := ()) hprefix (List.cons_ne_nil _ _)
  have hlength : (header :: dashed :: body).flatten.length =
      header.length + dashed.length + body.flatten.length := by
    simp only [List.flatten_cons, List.length_append]
    omega
  rw [hlength] at hfits
  exact hfits

/-! ## Raw HTML -/

/-- A text whose first character behind blanks is no white space starts with a line that is not
blank. -/
lemma exists_first_line {cs rest : Text} {c : Char} (hc : isSpace c = false)
    (h : cs.dropWhile (· = ' ') = c :: rest) :
    ∃ l ls, lines cs = l :: ls ∧ isBlank l = false := by
  induction cs with
  | nil => cases h
  | cons d cs ih =>
    by_cases hd : d = ' '
    · subst hd
      rw [List.dropWhile_cons_of_pos (by simp)] at h
      obtain ⟨l, ls, hls, hl⟩ := ih h
      refine ⟨' ' :: l, ls, ?_, ?_⟩
      · simp [lines, hls]
      · simpa [isBlank, isSpace] using hl
    · rw [List.dropWhile_cons_of_neg (by simpa using hd)] at h
      cases h
      have hfeed : c ≠ '\n' := by
        rintro rfl
        simp [isSpace] at hc
      simp only [lines, if_neg hfeed]
      split
      · exact ⟨[c], [], rfl, by simp [isBlank, hc]⟩
      next l ls _ => exact ⟨c :: l, ls, rfl, by simp [isBlank, hc]⟩

lemma lineEndFrom_le {cs : Text} {n : Nat} (h : n ≤ cs.length) : lineEndFrom cs n ≤ cs.length := by
  have := length_restOfLine_add_afterLine (cs.drop n)
  rw [List.length_drop] at this
  simp only [lineEndFrom, List.length_take]
  omega

/-- Up to the line that closes a block, or to the end, there is something but not too much. -/
lemma lengthThrough_fits {closing searched cs : Text} (hclosing : closing ≠ []) (hcs : cs ≠ [])
    (hlen : searched.length = cs.length) :
    0 < lengthThrough closing searched cs ∧ lengthThrough closing searched cs ≤ cs.length := by
  simp only [lengthThrough]
  split
  next n hn =>
    have hend := indexOf?_add_le hn
    have hpos := List.length_pos_iff.2 hclosing
    refine ⟨?_, lineEndFrom_le (by omega)⟩
    simp only [lineEndFrom]
    omega
  next => exact ⟨List.length_pos_iff.2 hcs, le_rfl⟩

lemma htmlLength?_fits {cs : Text} {n : Nat} (h : htmlLength? cs = some n) :
    0 < n ∧ n ≤ cs.length := by
  have hcs : cs ≠ [] := by
    rintro rfl
    simp [htmlLength?] at h
  simp only [htmlLength?] at h
  split at h
  next => cases h
  next =>
    split at h
    next =>
      cases h
      exact lengthThrough_fits (by decide) hcs rfl
    next =>
      split at h
      next rest hrest =>
        generalize lowerAscii (elementName _) = tag at h
        split at h
        next =>
          split at h
          next =>
            cases h
            exact lengthThrough_fits (by simp) hcs (by simp [lowerAscii])
          next =>
            cases h
            obtain ⟨l, ls, hls, hl⟩ := exists_first_line (by decide) hrest
            refine ⟨length_flatten_pos (List.takeWhile_prefix _) ?_,
              length_flatten_le (List.takeWhile_prefix _)⟩
            rw [hls, List.takeWhile_cons_of_pos (by simp [hl])]
            exact List.cons_ne_nil _ _
        next => cases h
      next => cases h

lemma htmlBlock?_fits {cs : Text} {m : Found Block.Leaf} (h : htmlBlock? cs = some m) :
    m.Fits cs := by
  obtain ⟨n, hn, rfl⟩ := Option.map_eq_some_iff.1 h
  exact htmlLength?_fits hn

end Docmark
