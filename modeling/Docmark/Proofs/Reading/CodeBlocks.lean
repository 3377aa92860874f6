import Mathlib
import Docmark.Proofs.Extent.Pending
import Docmark.Proofs.FinalFeed.Line
import Docmark.Proofs.Reading.Agreement
import Docmark.Proofs.Reading.Single

/-!
# Code blocks are verbatim

Code is written in one of two ways: between two fences that are longer than any run of their mark in
the code, or behind four blanks on every line.  Both are undone by reading, whatever stands in the
code: the fence that closes is the first line of marks that is long enough, and indentation comes
off by the columns that were put on.

## Main results

* `fencedCode?_fenced`, `indentedCode?_indented` — what is written as code is recognised as the
  code, to its end.
* `code_blocks_are_verbatim` — in each dialect it is read as one block of code.
-/

namespace Docmark

lemma dropEndWhile_of_getLast? {p : Char → Bool} {cs : Text} (h : ∀ c ∈ cs.getLast?, p c = false) :
    dropEndWhile p cs = cs := by
  refine List.rdropWhile_eq_self_iff.2 fun hne hlast => ?_
  rw [h _ (List.getLast?_eq_some_getLast hne)] at hlast
  cases hlast

/-! ## Fences -/

/-- A text between two lines of `n` marks. -/
def fenced (mark : Char) (n : Nat) (text : Text) : Text :=
  List.replicate n mark ++ '\n' :: (text ++ '\n' :: List.replicate n mark)

section Fenced

variable {mark : Char} {n : Nat} {text : Text}

lemma restOfLine_of_line {l : Text} (hl : '\n' ∉ l) (rest : Text) :
    restOfLine (l ++ '\n' :: rest) = l := by
  rw [restOfLine, List.takeWhile_append_of_pos fun c hc => ?_, List.takeWhile_cons_of_neg (by simp),
    List.append_nil]
  simpa using fun hfeed : c = '\n' => hl (hfeed ▸ hc)

lemma afterLine_of_line {l : Text} (hl : '\n' ∉ l) (rest : Text) :
    afterLine (l ++ '\n' :: rest) = '\n' :: rest := by
  have hsplit := restOfLine_append_afterLine (l ++ '\n' :: rest)
  rw [restOfLine_of_line hl] at hsplit
  exact List.append_cancel_left hsplit

variable (hmark : mark = '\x60' ∨ mark = '~')

include hmark

lemma isSpace_fenceMark : isSpace mark = false := by
  rcases hmark with rfl | rfl <;> decide

lemma not_mem_marks : '\n' ∉ List.replicate n mark := fun hfeed => by
  rw [← List.eq_of_mem_replicate hfeed] at hmark
  exact absurd hmark (by decide)

/-- A line of marks opens fenced code without a language. -/
lemma fence?_marks (hn : 3 ≤ n) (rest : Text) :
    fence? (List.replicate n mark ++ '\n' :: rest) = some ⟨0, mark, n, []⟩ := by
  obtain ⟨k, rfl⟩ : ∃ k, n = k + 1 := ⟨n - 1, by omega⟩
  have hline : restOfLine (List.replicate (k + 1) mark ++ '\n' :: rest) =
      mark :: List.replicate k mark := restOfLine_of_line (not_mem_marks hmark) rest
  have hblank : mark ≠ ' ' := ne_of_not_isSpace (isSpace_fenceMark hmark) (by decide)
  have hbody : (mark :: List.replicate k mark).dropWhile (· = ' ') =
      mark :: List.replicate k mark := List.dropWhile_cons_of_neg (by simpa using hblank)
  have hrun : (mark :: List.replicate k mark).takeWhile (· = mark) =
      mark :: List.replicate k mark := List.takeWhile_eq_self_iff.2 (by simp)
  have hinfo : trim ((mark :: List.replicate k mark).drop (k + 1)) = [] := by
    rw [List.drop_of_length_le (by simp)]
    rfl
  simp only [fence?, hline, hbody, hrun, List.length_cons, List.length_replicate, hinfo,
    Nat.sub_self]
  exact if_pos ⟨Nat.zero_le 3, hmark, hn, by simp⟩

end Fenced

namespace Fence

variable {f : Fence}

/-- A line that closes fenced code holds as many marks in a row as opened it. -/
lemma marks_of_closedBy {line : Text} (h : f.closedBy line = true) :
    List.replicate f.size f.mark <:+: line := by
  simp only [closedBy, Bool.and_eq_true, decide_eq_true_eq, List.all_eq_true, beq_iff_eq] at h
  obtain ⟨⟨-, hsize⟩, hall⟩ := h
  have hmarks : List.replicate f.size f.mark <+: trim line := by
    rw [List.eq_replicate_of_mem hall]
    exact List.prefix_replicate_iff.2 ⟨by simpa using hsize, by simp⟩
  exact hmarks.isInfix.trans (trim_piece line)

/-- A line of as many marks closes fenced code. -/
lemma closedBy_marks (hmark : isSpace f.mark = false) (hsize : 0 < f.size) :
    f.closedBy (List.replicate f.size f.mark) = true := by
  obtain ⟨k, hk⟩ : ∃ k, f.size = k + 1 := ⟨f.size - 1, by omega⟩
  have htrim : trim (List.replicate f.size f.mark) = List.replicate f.size f.mark := by
    rw [trim, trimStart, hk, List.replicate_succ, List.dropWhile_cons_of_neg (by simp [hmark]),
      ← List.replicate_succ, trimEnd]
    refine dropEndWhile_of_getLast? fun c hc => ?_
    rwa [List.eq_of_mem_replicate (List.mem_of_getLast? hc)]
  have hindent : indentation (List.replicate f.size f.mark) = 0 := by
    rw [hk, List.replicate_succ]
    exact indentation_of_not_isSpace hmark
  simp [closedBy, htrim, hindent]

/-- The code goes up to the first line that closes it. -/
lemma body_of_closing {ls : List Text} {closing : Text} (h : ∀ l ∈ ls, f.closedBy l = false)
    (hclosing : f.closedBy closing = true) (rest : List Text) :
    f.body (ls ++ closing :: rest) = (ls, some closing) := by
  induction ls with
  | nil => simp [body, hclosing]
  | cons l ls ih =>
    obtain ⟨hl, hls⟩ := List.forall_mem_cons.1 h
    simp [body, hl, ih hls]

end Fence

section Fenced

variable {mark : Char} {n : Nat} {text tail : Text}

lemma flatMap_stripIndent_zero (ls : List Text) : ls.flatMap (stripIndent 0) = ls.flatten := by
  have hnone (l : Text) : stripIndent 0 l = l := by cases l <;> rfl
  rw [List.flatMap_def, funext hnone, List.map_id']

/-- **Fenced code is recognised** as the text between the fences, up to the end of the closing
line. -/
lemma fencedCode?_fenced (hmark : mark = '\x60' ∨ mark = '~') (hn : 3 ≤ n)
    (hruns : ∀ k, List.replicate k mark <:+: text → k < n) (hend : text.getLast? ≠ some '\n')
    (htail : tail = [] ∨ tail = ['\n']) :
    fencedCode? (fenced mark n text ++ tail) =
      some ⟨(fenced mark n text ++ tail).length, .code none text⟩ := by
  have hmarks : '\n' ∉ List.replicate n mark := not_mem_marks hmark
  have hsplit : fenced mark n text ++ tail =
      List.replicate n mark ++ '\n' :: (text ++ '\n' :: (List.replicate n mark ++ tail)) := by
    simp [fenced]
  have hclosing : (⟨0, mark, n, []⟩ : Fence).closedBy (List.replicate n mark ++ tail) = true := by
    have hmark' := Fence.closedBy_marks (f := ⟨0, mark, n, []⟩) (isSpace_fenceMark hmark)
      (show 0 < n by omega)
    rcases htail with rfl | rfl
    · rwa [List.append_nil]
    · rwa [Fence.closedBy_feed]
  -- a line of the text that closed the code would hold a run that is too long
  have hopen : ∀ l ∈ lines (text ++ ['\n']), (⟨0, mark, n, []⟩ : Fence).closedBy l = false := by
    intro l hl
    by_contra hcloses
    have hrun := (Fence.marks_of_closedBy (Bool.not_eq_false _ ▸ hcloses)).trans
      (List.infix_of_mem_flatten hl)
    rw [lines_flatten, List.infix_concat_iff, List.suffix_concat_iff] at hrun
    rcases hrun with (hnil | ⟨t, ht, -⟩) | hrun
    · simp only [List.replicate_eq_nil_iff] at hnil
      omega
    · exact hmarks (ht ▸ by simp)
    · exact (hruns n hrun).false
  have hlines : lines (text ++ '\n' :: (List.replicate n mark ++ tail)) =
      lines (text ++ ['\n']) ++ [List.replicate n mark ++ tail] := by
    have hne : List.replicate n mark ≠ [] := by
      rw [Ne, List.replicate_eq_nil_iff]
      omega
    rw [lines_append_feed]
    rcases htail with rfl | rfl
    · rw [List.append_nil, lines_of_last hne hmarks]
    · rw [lines_of_line hmarks]
      rfl
  have hopening : (List.replicate n mark ++ '\n' :: (text ++ '\n' :: (List.replicate n mark ++
      tail))).drop (n + 1) = text ++ '\n' :: (List.replicate n mark ++ tail) := by
    rw [List.append_cons]
    exact List.drop_left' (by simp)
  have htext : dropEndWhile (· = '\n') (text ++ ['\n']) = text := by
    rw [dropEndWhile_feed (by decide)]
    exact dropEndWhile_of_getLast? fun c hc => by
      simpa using fun hfeed : c = '\n' => hend (hfeed ▸ hc)
  simp only [fencedCode?, hsplit, fence?_marks hmark hn, restOfLine_of_line hmarks,
    afterLine_of_line hmarks, List.length_replicate, List.take_succ_cons, List.take_zero,
    List.length_singleton, hopening, hlines, Fence.body_of_closing hopen hclosing,
    flatMap_stripIndent_zero, lines_flatten, htext, Option.getD_some]
  congr 2
  simp only [List.length_append, List.length_cons, List.length_nil, List.length_replicate]
  omega

end Fenced

/-! ## Indented code -/

/-- The indentation of code. -/
def codeIndent : Text := [' ', ' ', ' ', ' ']

/-- The text with the indentation of code in front of each of its lines. -/
def indented (text : Text) : Text := (lines text).flatMap (codeIndent ++ ·)

section Indented

variable {text : Text}

lemma lines_indented (text : Text) : lines (indented text) = (lines text).map (codeIndent ++ ·) :=
  AreLines.lines_flatten ((lines_areLines text).map fun _ => ⟨codeIndent, by decide, rfl⟩)

lemma isBlank_codeIndent (line : Text) : isBlank (codeIndent ++ line) = isBlank line := rfl

lemma le_indentation_codeIndent (line : Text) : 4 ≤ indentation (codeIndent ++ line) :=
  le_indentFrom 4 line

/-- The columns that were put on come off, also in front of further white space. -/
lemma stripIndent_codeIndent (line : Text) : stripIndent 4 (codeIndent ++ line) = line := by
  cases line <;> rfl

/-- **Indented code is recognised** as the text that was indented, to its end. -/
lemma indentedCode?_indented (hfirst : (lines text).head?.all isBlank = false)
    (hlast : (lines text).getLast?.all isBlank = false) (hend : text.getLast? ≠ some '\n') :
    indentedCode? (indented text) = some ⟨(indented text).length, .code none text⟩ := by
  obtain ⟨first, ls, hlines⟩ : ∃ first ls, lines text = first :: ls := by
    refine List.exists_cons_of_ne_nil fun hnil => ?_
    simp [hnil] at hfirst
  have hblank : isBlank first = false := by simpa [hlines] using hfirst
  have hrun : (ls.map (codeIndent ++ ·)).takeWhile
      (fun l => isBlank l || decide (4 ≤ indentation l)) = ls.map (codeIndent ++ ·) := by
    refine List.takeWhile_eq_self_iff.2 fun l hl => ?_
    obtain ⟨line, -, rfl⟩ := List.mem_map.1 hl
    simp [le_indentation_codeIndent]
  have hkept : ((ls.map (codeIndent ++ ·)).reverse.dropWhile isBlank).reverse =
      ls.map (codeIndent ++ ·) := by
    refine List.rdropWhile_eq_self_iff.2 fun hne => ?_
    have hls : ls ≠ [] := by simpa using hne
    rw [hlines, List.getLast?_cons, List.getLast?_eq_some_getLast hls] at hlast
    rw [List.getLast_map, isBlank_codeIndent]
    exact ne_true_of_eq_false (by simpa using hlast)
  have htext : dropEndWhile (· = '\n') text = text :=
    dropEndWhile_of_getLast? fun c hc => by simpa using fun hfeed : c = '\n' => hend (hfeed ▸ hc)
  have hcode : ((codeIndent ++ first) :: ls.map (codeIndent ++ ·)).flatMap (stripIndent 4) =
      text := by
    rw [← List.map_cons, ← hlines, List.flatMap_map]
    simp only [stripIndent_codeIndent, List.flatMap_id', lines_flatten]
  have hall : ((codeIndent ++ first) :: ls.map (codeIndent ++ ·)).flatten = indented text := by
    rw [← List.map_cons, ← hlines]
    rfl
  have hindent : ¬ (isBlank (codeIndent ++ first) = true ∨
      indentation (codeIndent ++ first) < 4) := by
    rw [isBlank_codeIndent, hblank, not_or]
    exact ⟨Bool.false_ne_true, (le_indentation_codeIndent first).not_gt⟩
  simp only [indentedCode?, lines_indented, hlines, List.map_cons, if_neg hindent, hrun, hkept,
    hcode, htext, hall]

lemma isBlank_of_isPad {cs : Text} (h : cs.all isPad = true) : isBlank cs = true := by
  refine List.all_eq_true.2 fun c hc => ?_
  rw [← Bool.not_eq_false]
  intro hspace
  have hpad := List.all_eq_true.1 h c hc
  rw [isPad_of_not_isSpace hspace] at hpad
  cases hpad

lemma isBlank_of_isPadLine {line : Text} (h : isPadLine line = true) : isBlank line = true := by
  simp only [isPadLine, Bool.and_eq_true, beq_iff_eq] at h
  obtain ⟨hlast, hpads⟩ := h
  obtain ⟨init, rfl⟩ := List.getLast?_eq_some_iff.1 hlast
  rw [List.dropLast_concat] at hpads
  rw [isBlank_feed, isBlank_of_isPad hpads]

/-- A text whose first line is not blank begins with no blank lines. -/
lemma blankLines?_of_first {cs : Text} (h : (lines cs).head?.all isBlank = false) :
    blankLines? cs = none := by
  obtain ⟨line, ls, hlines⟩ : ∃ line ls, lines cs = line :: ls := by
    refine List.exists_cons_of_ne_nil fun hnil => ?_
    simp [hnil] at h
  have hblank : isBlank line = false := by simpa [hlines] using h
  have hline : isPadLine line = false := by
    rw [← Bool.not_eq_true]
    intro hpads
    rw [isBlank_of_isPadLine hpads] at hblank
    cases hblank
  have hcs : cs.all isPad = false := by
    rw [← Bool.not_eq_true]
    intro hpads
    have hall := isBlank_of_isPad hpads
    rw [← lines_flatten cs, hlines, List.flatten_cons, isBlank, List.all_append] at hall
    rw [isBlank, (Bool.and_eq_true_iff.1 hall).1] at hblank
    cases hblank
  simp [blankLines?, hlines, hline, hcs]

end Indented

/-! ## Code in the dialects -/

/-- Every dialect tries blank lines, indented code and fenced code before all else. -/
lemma Flavor.rules_codeBlocks (f : Flavor) : ∃ after : List BlockRule, f.rules.block =
    .standard .newline :: .standard .indentedCode :: .standard .fences :: after := by
  cases f <;> exact ⟨_, rfl⟩

section Dialects

variable (f : Flavor) (scope : Scope) (origin : Point) {text : Text}

lemma readBlocks_fenced {mark : Char} {n : Nat} {tail : Text} (hmark : mark = '\x60' ∨ mark = '~')
    (hn : 3 ≤ n) (hruns : ∀ k, List.replicate k mark <:+: text → k < n)
    (hend : text.getLast? ≠ some '\n') (htail : tail = [] ∨ tail = ['\n']) :
    readBlocks f.rules scope (fenced mark n text ++ tail) origin =
      .ok [.leaf ⟨BlockConstruct.fences.name,
        ⟨origin, origin.advance (fenced mark n text ++ tail)⟩⟩ (.code none text)] := by
  obtain ⟨after, hrules⟩ := f.rules_codeBlocks
  have hspace : isSpace mark = false := isSpace_fenceMark hmark
  obtain ⟨rest, hrest⟩ : ∃ rest, fenced mark n text ++ tail = mark :: rest := by
    obtain ⟨k, rfl⟩ : ∃ k, n = k + 1 := ⟨n - 1, by omega⟩
    exact ⟨_, rfl⟩
  have hcode (nest : Option BlockReader) : BlockConstruct.fences.recognize nest scope
      (Cursor.ofText (fenced mark n text ++ tail) origin) =
        .ok (some ⟨(fenced mark n text ++ tail).length, .leaf (.code none text)⟩) := by
    simp only [BlockConstruct.recognize, Cursor.ofText,
      fencedCode?_fenced hmark hn hruns hend htail]
    rfl
  have hbefore (nest : Option BlockReader) :
      ∀ r ∈ [BlockRule.standard .newline, .standard .indentedCode],
        Declines (BlockRule.attempt nest scope
          (Cursor.ofText (fenced mark n text ++ tail) origin)) r := by
    rw [List.forall_mem_cons, List.forall_mem_singleton]
    constructor
    · refine declines_of_block ?_
      simp only [BlockConstruct.recognize, Cursor.ofText, hrest, blankLines?_marked hspace,
        Option.map_none]
    · refine declines_of_block ?_
      simp only [BlockConstruct.recognize, Cursor.ofText, hrest, indentedCode?_marked hspace,
        Option.map_none]
  have hread := readBlocks_single hrules (by simp [hrest]) (hbefore _) (hcode _)
  exact hread

lemma readBlocks_indented (hfirst : (lines text).head?.all isBlank = false)
    (hlast : (lines text).getLast?.all isBlank = false) (hend : text.getLast? ≠ some '\n') :
    readBlocks f.rules scope (indented text) origin =
      .ok [.leaf ⟨BlockConstruct.indentedCode.name, ⟨origin, origin.advance (indented text)⟩⟩
        (.code none text)] := by
  obtain ⟨after, hrules⟩ := f.rules_codeBlocks
  have hcode (nest : Option BlockReader) : BlockConstruct.indentedCode.recognize nest scope
      (Cursor.ofText (indented text) origin) =
        .ok (some ⟨(indented text).length, .leaf (.code none text)⟩) := by
    simp only [BlockConstruct.recognize, Cursor.ofText, indentedCode?_indented hfirst hlast hend]
    rfl
  have hbefore (nest : Option BlockReader) : ∀ r ∈ [BlockRule.standard .newline],
      Declines (BlockRule.attempt nest scope (Cursor.ofText (indented text) origin)) r := by
    rw [List.forall_mem_singleton]
    have hblank : blankLines? (indented text) = none := by
      refine blankLines?_of_first ?_
      rwa [lines_indented, List.head?_map, Option.all_map]
    refine declines_of_block ?_
    simp only [BlockConstruct.recognize, Cursor.ofText, hblank, Option.map_none]
  have hne : indented text ≠ [] := by
    intro hnil
    have hlines := lines_indented text
    rw [hnil, eq_comm, lines, List.map_eq_nil_iff] at hlines
    simp [hlines] at hfirst
  have hread := readBlocks_single hrules hne (hbefore _) (hcode _)
  exact hread

end Dialects

/-- **Code blocks are verbatim.**  In each dialect and wherever blocks are read, a text that does
not end with a line feed is read back as one block of code, without a language, from between two
fences that are longer than every run of their mark in the text, whether or not the last line ends
with a line feed; and, if neither its first nor its last line is blank, from behind four blanks on
every line. -/
theorem code_blocks_are_verbatim (f : Flavor) (scope : Scope) (origin : Point) {text : Text}
    (hend : text.getLast? ≠ some '\n') :
    (∀ mark n tail, mark = '\x60' ∨ mark = '~' → 3 ≤ n →
      (∀ k, List.replicate k mark <:+: text → k < n) → tail = [] ∨ tail = ['\n'] →
        readBlocks f.rules scope (fenced mark n text ++ tail) origin =
          .ok [.leaf ⟨BlockConstruct.fences.name,
            ⟨origin, origin.advance (fenced mark n text ++ tail)⟩⟩ (.code none text)]) ∧
    ((lines text).head?.all isBlank = false → (lines text).getLast?.all isBlank = false →
      readBlocks f.rules scope (indented text) origin =
        .ok [.leaf ⟨BlockConstruct.indentedCode.name, ⟨origin, origin.advance (indented text)⟩⟩
          (.code none text)]) :=
  ⟨fun _ _ _ hmark hn hruns htail => readBlocks_fenced f scope origin hmark hn hruns hend htail,
    fun hfirst hlast => readBlocks_indented f scope origin hfirst hlast hend⟩

/-- Code with a shorter fence, an empty line, a tab and a mark of quotes, in the last level that may
be opened. -/
theorem code_blocks_are_verbatim_dfm :
    "\x60\x60\x60\n\n\t# a\n> b".toList.getLast? ≠ some '\n' ∧
    readBlocks Flavor.dfm.rules ⟨.block, 100, []⟩
        "\x60\x60\x60\x60\n\x60\x60\x60\n\n\t# a\n> b\n\x60\x60\x60\x60".toList Point.start =
      .ok [.leaf ⟨"fences", ⟨Point.start, ⟨6, 5, 23⟩⟩⟩
        (.code none "\x60\x60\x60\n\n\t# a\n> b".toList)] ∧
    readBlocks Flavor.dfm.rules ⟨.block, 100, []⟩
        "    \x60\x60\x60\n    \n    \t# a\n    > b".toList Point.start =
      .ok [.leaf ⟨"code", ⟨Point.start, ⟨4, 8, 29⟩⟩⟩
        (.code none "\x60\x60\x60\n\n\t# a\n> b".toList)] := by
  have hend : "\x60\x60\x60\n\n\t# a\n> b".toList.getLast? ≠ some '\n' := by decide
  obtain ⟨hfenced, hindented⟩ := code_blocks_are_verbatim .dfm ⟨.block, 100, []⟩ Point.start hend
  refine ⟨hend, hfenced '\x60' 4 [] (.inl rfl) (by decide) (fun k hrun => ?_) (.inl rfl),
    hindented (by decide) (by decide)⟩
  have hcount := hrun.sublist.count_le '\x60'
  rw [List.count_replicate_self] at hcount
  exact Nat.lt_succ_of_le hcount

end Docmark
