import Mathlib
import Docmark.Proofs.FinalFeed.Extent
import Docmark.Proofs.FinalFeed.Growth

/-!
# Leaves at the end of a text

What each construct without inner blocks makes of one more line feed at the end of the text: nothing
that it shows changes, except that raw HTML gets the line feed.
-/

namespace Docmark

/-- Two leaves that constructs yield for a text and for the text with one more line feed, where both
take everything. -/
def Block.Leaf.Feeds (l l' : Block.Leaf) : Prop := l.Grows l.endsOpen l'

lemma Block.Leaf.endsOpen_of_kind {l : Block.Leaf} (h : l.kind ≠ .html) : l.endsOpen = false := by
  cases l <;> first | rfl | exact absurd rfl h

lemma Block.Leaf.Feeds.refl {l : Block.Leaf} (h : l.kind ≠ .html) : l.Feeds l :=
  Grows.refl (endsOpen_of_kind h) l

/-- Two bodies that constructs yield for a text and for the text with one more line feed, where both
take everything; `h` is the head of the first block. -/
def Block.Body.Feeds (h : Head) (v v' : Block.Body) : Prop :=
  ∀ h', h.Agrees h' →
    (Block.ofBody h v).Grows ((Block.ofBody h v).endsOpen true) (Block.ofBody h' v')

lemma Block.Leaf.Feeds.body {l l' : Block.Leaf} (hl : l.Feeds l') (h : Head) :
    Block.Body.Feeds h (.leaf l) (.leaf l') := by
  intro h' hh
  rw [Block.ofBody, Block.endsOpen_leaf, Bool.true_and]
  exact .leaf hh hl

/-- A container that stays the same may end elsewhere. -/
lemma Block.Body.Feeds.node {h : Head} {f : Block.Frame} {bs : List Block}
    (hopen : (Block.node h f bs).endsOpen true = false) :
    Block.Body.Feeds h (.node f bs) (.node f bs) := by
  intro h' hh
  rw [Block.ofBody, hopen]
  exact .node hh (fun _ => Iff.rfl) (.refl _ _)

/-- A cursor on the same input with one more line feed at its end. -/
def Cursor.feed (cur : Cursor) : Cursor := { cur with rest := cur.rest ++ ['\n'] }

section Cursor

variable (cur : Cursor)

@[simp] lemma Cursor.feed_rest : cur.feed.rest = cur.rest ++ ['\n'] := rfl

@[simp] lemma Cursor.feed_point : cur.feed.point = cur.point := rfl

lemma Cursor.feed_pointAt {n : Nat} (h : n ≤ cur.rest.length) :
    cur.feed.pointAt n = cur.pointAt n := by
  simp only [Cursor.pointAt, Cursor.feed_point, Cursor.feed_rest, List.take_append_of_le_length h]

end Cursor

/-! ## Breaks and headings -/

theorem thematicBreak?_fed (cs : Text) :
    Found.Fed Block.Leaf.Feeds cs (thematicBreak? cs) (thematicBreak? (cs ++ ['\n'])) := by
  simp only [thematicBreak?, restOfLine_feed]
  split
  · exact .none
  · split
    · exact .lineFeedsAfter (.refl (by decide))
    · exact .none

lemma headingLine?_start_le {style : HeadingStyle} {cs : Text} {h : HeadingLine}
    (hline : headingLine? style (restOfLine cs) = some h) : h.start ≤ cs.length := by
  obtain ⟨before, after, hsplit, hstart⟩ := headingLine?_hasSlice hline
  have hle := (restOfLine_initial cs).length_le
  rw [hsplit] at hle
  simp only [List.length_append] at hle
  omega

theorem heading?_fed (style : HeadingStyle) (level : Option Nat) (scope : Scope) (cur : Cursor) :
    Found.Fed Block.Leaf.Feeds cur.rest (heading? style level scope cur)
      (heading? style level scope cur.feed) := by
  simp only [heading?, Cursor.feed_rest, restOfLine_feed]
  cases hline : headingLine? style (restOfLine cur.rest) with
  | none => exact .none
  | some h =>
    dsimp only
    split
    · exact .none
    · rw [cur.feed_pointAt (headingLine?_start_le hline)]
      exact .lineFeedsAfter (.refl (by simp [Block.Leaf.kind]))

theorem underlinedHeading?_fed (scope : Scope) (cur : Cursor) :
    Found.Fed Block.Leaf.Feeds cur.rest (underlinedHeading? scope cur)
      (underlinedHeading? scope cur.feed) := by
  simp only [underlinedHeading?, Cursor.feed_rest, restOfLine_feed, afterLine_feed,
    Cursor.feed_point]
  cases hafter : afterLine cur.rest with
  | nil => exact .none
  | cons c below =>
    simp only [List.cons_append, restOfLine_feed]
    split
    · exact .none
    · split
      · exact .none
      · have hrest : cur.rest =
            (restOfLine cur.rest ++ c :: restOfLine below) ++ afterLine below := by
          rw [List.append_assoc, List.cons_append, restOfLine_append_afterLine, ← hafter,
            restOfLine_append_afterLine]
        have hlength : (restOfLine cur.rest ++ c :: restOfLine below).length =
            (restOfLine cur.rest).length + 1 + (restOfLine below).length := by
          simp only [List.length_append, List.length_cons]
          omega
        rw [lineFeedsAfter, lineFeedsAfter, afterLine_feed, ← hlength]
        exact .leadingNewlines hrest (.refl (by simp [Block.Leaf.kind]))

/-! ## Code -/

/-- The lines of indented code behind its first, less what is blank at their end. -/
def codeLines (ls : List Text) : List Text :=
  ((ls.takeWhile fun l => isBlank l || decide (4 ≤ indentation l)).reverse.dropWhile
    isBlank).reverse

lemma codeLines_nil : codeLines [] = [] := rfl

lemma codeLines_cons (l : Text) (ls : List Text) :
    codeLines (l :: ls) =
      if isBlank l || decide (4 ≤ indentation l) then
        if codeLines ls = [] then if isBlank l then [] else [l] else l :: codeLines ls
      else [] := by
  rw [codeLines, List.takeWhile_cons]
  split
  · rw [List.reverse_cons, List.dropWhile_append]
    simp only [codeLines, List.isEmpty_iff, List.reverse_eq_nil_iff]
    split
    · by_cases hl : isBlank l <;> simp [hl]
    · simp
  · rfl

/-- A line feed on a line of its own is left out at the end of indented code. -/
lemma Chosen.codeLines {ls ls' : List Text} (h : FedLines ls ls') :
    Chosen ls ls' (codeLines ls) (codeLines ls') := by
  induction h with
  | own => exact .own
  | @last l hne hl =>
    have hstop : Chosen [l] [l ++ ['\n']] [] [] := .stop (by simpa using hne) (.last hne hl)
    simp only [codeLines_cons, isBlank_feed, indentation_feed, codeLines_nil, if_true]
    split_ifs
    · exact hstop
    · exact .last hne hl
    · exact hstop
  | @cons l ls ls' hl hls ih =>
    simp only [codeLines_cons, ih.eq_nil_iff]
    have hstop : Chosen ((l ++ ['\n']) :: ls) ((l ++ ['\n']) :: ls') [] [] :=
      .stop (by simp) (.cons hl hls)
    split_ifs with hcode hnil hblank
    · exact hstop
    · rw [ih.eq_nil_iff.2 hnil, hnil] at ih
      exact .cons hl ih
    · exact .cons hl ih
    · exact hstop

theorem indentedCode?_fed {cs : Text} (hcs : cs ≠ []) :
    Found.Fed Block.Leaf.Feeds cs (indentedCode? cs) (indentedCode? (cs ++ ['\n'])) := by
  have hcode {s s' : List Text} (h : Chosen (lines cs) (lines (cs ++ ['\n'])) s s') :
      Found.Fed Block.Leaf.Feeds cs
        (some ⟨s.flatten.length,
          .code none (dropEndWhile (· = '\n') (s.flatMap (stripIndent 4)))⟩)
        (some ⟨s'.flatten.length,
          .code none (dropEndWhile (· = '\n') (s'.flatMap (stripIndent 4)))⟩) := by
    refine h.fed hcs (fun hs => ⟨by rw [hs], .refl (by simp [Block.Leaf.kind])⟩) fun hlast => ?_
    rw [hlast.flatMap fun l _ => stripIndent_feed 4 l, dropEndWhile_feed (by decide)]
    exact .refl (by simp [Block.Leaf.kind])
  have hfed := fedLines_lines cs
  simp only [indentedCode?]
  generalize hls : lines cs = ls at hfed hcode
  generalize lines (cs ++ ['\n']) = ls' at hfed hcode
  cases hfed with
  | own => exact absurd (lines_eq_nil.1 hls) hcs
  | @last l hne hl =>
    simp only [isBlank_feed, indentation_feed]
    split
    · exact .none
    · exact hcode (.last hne hl)
  | @cons l ls ls' hl hrest =>
    dsimp only
    split
    · exact .none
    · exact hcode (.cons hl (.codeLines hrest))

lemma fence?_feed (cs : Text) : fence? (cs ++ ['\n']) = fence? cs := by
  simp only [fence?, restOfLine_feed]

lemma fence?_size {cs : Text} {f : Fence} (h : fence? cs = some f) : 3 ≤ f.size := by
  simp only [fence?] at h
  split at h
  · cases h
  · split at h
    next hmark =>
      cases h
      exact hmark.2.2.1
    next => cases h

namespace Fence

variable (f : Fence)

/-- The number of characters of fenced code behind its opening line. -/
def taken (ls : List Text) : Nat := (f.body ls).1.flatten.length + ((f.body ls).2.getD []).length

/-- The code in lines of fenced code. -/
def code (ls : List Text) : Text := (f.body ls).1.flatMap (stripIndent f.indent)

lemma taken_cons (l : Text) (ls : List Text) :
    f.taken (l :: ls) = if f.closedBy l then l.length else l.length + f.taken ls := by
  simp only [taken, body]
  split
  · simp
  · simp [Nat.add_assoc]

lemma code_cons (l : Text) (ls : List Text) :
    f.code (l :: ls) = if f.closedBy l then [] else stripIndent f.indent l ++ f.code ls := by
  simp only [code, body]
  split <;> simp

variable {f}

lemma not_closedBy_feed (hf : 3 ≤ f.size) : f.closedBy ['\n'] = false := by
  have hlength : (trim ['\n']).length = 0 := by decide
  rw [closedBy, hlength, decide_eq_false (by omega : ¬ f.size ≤ 0), Bool.and_false, Bool.false_and]

/-- Fenced code stays the same if it is closed in front of the end, or at a line feed; else it takes
all lines, and the code is the same but for the line feed. -/
lemma fed (hf : 3 ≤ f.size) {ls ls' : List Text} (h : FedLines ls ls') :
    f.taken ls' = f.taken ls ∧ f.code ls' = f.code ls ∧ Stays ls.flatten (f.taken ls) ∨
      f.taken ls = ls.flatten.length ∧ f.taken ls' = ls.flatten.length + 1 ∧
        (f.code ls' = f.code ls ∨ f.code ls' = f.code ls ++ ['\n']) := by
  induction h with
  | own =>
    refine .inr ⟨rfl, ?_⟩
    rw [taken_cons, code_cons, not_closedBy_feed hf]
    exact ⟨rfl, .inr (by simp [stripIndent, stripIndentFrom, code, body])⟩
  | @last l hne hl =>
    simp only [taken_cons, code_cons, f.closedBy_feed]
    split
    · exact .inr ⟨by simp, by simp, .inl rfl⟩
    · exact .inr ⟨by simp [taken, body], by simp [taken, body],
        .inr (by simp [stripIndent_feed, code, body])⟩
  | @cons l ls ls' hl hls ih =>
    simp only [taken_cons, code_cons]
    split
    · exact .inl ⟨rfl, rfl, stays_line l ls.flatten⟩
    · rw [List.flatten_cons]
      obtain ⟨htaken, hcode, hstays⟩ | ⟨htaken, htaken', hcode⟩ := ih
      · exact .inl ⟨by rw [htaken], by rw [hcode], hstays.prepend _⟩
      · refine .inr ⟨by rw [htaken, ← List.length_append],
          by rw [htaken', ← Nat.add_assoc, ← List.length_append], ?_⟩
        obtain hcode | hcode := hcode
        · exact .inl (by rw [hcode])
        · exact .inr (by rw [hcode, List.append_assoc])

end Fence

lemma fencedCode?_eq (cs : Text) : fencedCode? cs =
    (fence? cs).map fun f =>
      let opening := (restOfLine cs).length + ((afterLine cs).take 1).length
      ⟨opening + f.taken (lines (cs.drop opening)),
        .code (words f.info).head?
          (dropEndWhile (· = '\n') (f.code (lines (cs.drop opening))))⟩ := by
  rw [fencedCode?]
  cases fence? cs with
  | none => rfl
  | some f => simp only [Option.map_some, Fence.taken, Fence.code, Nat.add_assoc]

theorem fencedCode?_fed (cs : Text) :
    Found.Fed Block.Leaf.Feeds cs (fencedCode? cs) (fencedCode? (cs ++ ['\n'])) := by
  rw [fencedCode?_eq, fencedCode?_eq, fence?_feed, restOfLine_feed, afterLine_feed]
  cases hfence : fence? cs with
  | none => exact .none
  | some f =>
    have hsplit := restOfLine_append_afterLine cs
    have hfeeds {v v' : Text} (h : v' = v ∨ v' = v ++ ['\n']) :
        Block.Leaf.Feeds (.code (words f.info).head? (dropEndWhile (· = '\n') v))
          (.code (words f.info).head? (dropEndWhile (· = '\n') v')) := by
      obtain rfl | rfl := h
      · exact .refl (by simp [Block.Leaf.kind])
      · rw [dropEndWhile_feed (by decide)]
        exact .refl (by simp [Block.Leaf.kind])
    cases hafter : afterLine cs with
    | nil =>
      -- the opening line ends the text, with or without its line feed
      rw [hafter, List.append_nil] at hsplit
      have hdrop : (cs ++ ['\n']).drop (cs.length + 1) = [] := List.drop_eq_nil_of_le (by simp)
      simp only [Option.map_some, hsplit, List.nil_append, List.take_nil, List.length_nil,
        Nat.add_zero, List.drop_length, List.take_succ_cons, List.length_singleton, hdrop]
      exact .grows (hfeeds (.inl rfl))
    | cons c rest =>
      obtain ⟨opening, hopening⟩ : ∃ opening, opening = restOfLine cs ++ [c] := ⟨_, rfl⟩
      have hcs : cs = opening ++ rest := by
        rw [hopening, List.append_assoc, List.singleton_append, ← hafter, hsplit]
      have hlength (after : Text) :
          (restOfLine cs).length + ((c :: after).take 1).length = opening.length := by
        simp [hopening]
      have hdrop (after : Text) : (opening ++ after).drop opening.length = after := List.drop_left
      simp only [Option.map_some, List.cons_append, hlength]
      rw [hcs, List.append_assoc, hdrop, hdrop]
      obtain ⟨htaken, hcode, hstays⟩ | ⟨htaken, htaken', hcode⟩ :=
        Fence.fed (fence?_size hfence) (fedLines_lines rest)
      · rw [htaken, hcode]
        rw [lines_flatten] at hstays
        exact .of_stays (hstays.prepend opening) fun _ _ => hfeeds (.inl rfl)
      · rw [htaken, htaken', lines_flatten, ← Nat.add_assoc, ← List.length_append]
        exact .grows (hfeeds hcode)

/-! ## Paragraphs -/

lemma Chosen.paragraphLines (lists : Bool) {ls ls' : List Text} (h : FedLines ls ls')
    (hne : ls ≠ []) :
    Chosen ls ls' (paragraphLines lists ls) (paragraphLines lists ls') := by
  cases h with
  | own => exact absurd rfl hne
  | @last l hl₀ hl =>
    simp only [Docmark.paragraphLines, isBlank_feed, List.takeWhile_nil, ite_self]
    exact .last hl₀ hl
  | @cons l ls ls' hl hls =>
    simp only [Docmark.paragraphLines]
    split
    · exact .cons hl (.nothing hls)
    · refine .cons hl (.takeWhile (fun m hm _ => ?_) (by simp) hls)
      rw [isBlank_feed, interruptsParagraph_feed hm]

lemma FeedsLast.joinParagraph {ls ls' : List Text} (h : FeedsLast ls ls') :
    joinParagraph ls' = joinParagraph ls := by
  obtain htext | htext := h.flatMap_cases (f := trimStart) fun l =>
    (trimStart_feed_cases l).imp_right And.left
  · rw [Docmark.joinParagraph, htext, ← Docmark.joinParagraph]
  · rw [Docmark.joinParagraph, htext, trimEnd_feed, ← Docmark.joinParagraph]

/-- A paragraph with the line feeds behind it takes one more, or the one at the end of its last
line, which is trimmed. -/
lemma paragraphBlock_fed (form : Pending.Form) (lists : Bool) (scope : Scope) {cur : Cursor}
    (hrest : cur.rest ≠ []) :
    Found.Fed Block.Leaf.Feeds cur.rest
      (some (paragraphBlock form (paragraphLines lists (lines cur.rest)) scope cur))
      (some (paragraphBlock form (paragraphLines lists (lines cur.feed.rest)) scope cur.feed)) := by
  have hchosen := Chosen.paragraphLines lists (fedLines_lines cur.rest)
    (mt lines_eq_nil.1 hrest)
  obtain ⟨after, hafter⟩ := flatten_initial (paragraphLines_initial lists (lines cur.rest))
  rw [Cursor.feed_rest]
  generalize paragraphLines lists (lines cur.rest) = s at hchosen hafter
  generalize paragraphLines lists (lines (cur.rest ++ ['\n'])) = s' at hchosen
  have hdrop (text : Text) : (s.flatten ++ text).drop s.flatten.length = text := List.drop_left
  simp only [paragraphBlock, Cursor.feed_rest, Cursor.feed_point]
  obtain ⟨rfl, -⟩ | ⟨hs, hs', hlast⟩ := hchosen.cases_lines hrest
  · rw [← hafter, List.append_assoc, hdrop, hdrop]
    exact .leadingNewlines rfl (.refl (by simp [Block.Leaf.kind]))
  · rw [hs, hs', List.drop_length, List.drop_length, hlast.joinParagraph, List.length_append]
    exact .grows (.refl (by simp [Block.Leaf.kind]))

theorem paragraph?_fed (scope : Scope) {cur : Cursor} (hrest : cur.rest ≠ []) :
    Found.Fed Block.Leaf.Feeds cur.rest (paragraph? scope cur) (paragraph? scope cur.feed) := by
  have hblank : (paragraphLines false (lines cur.feed.rest)).all isBlank =
      (paragraphLines false (lines cur.rest)).all isBlank := by
    have hchosen := Chosen.paragraphLines false (fedLines_lines cur.rest)
      (mt lines_eq_nil.1 hrest)
    obtain ⟨hsame, -⟩ | ⟨-, -, hlast⟩ := hchosen.cases_lines hrest
    · exact congrArg (List.all · isBlank) hsame
    · exact hlast.all isBlank_feed
  simp only [paragraph?, hblank]
  split
  · exact .none
  · exact paragraphBlock_fed .paragraph false scope hrest

theorem anyText_fed (scope : Scope) {cur : Cursor} (hrest : cur.rest ≠ []) :
    Found.Fed Block.Leaf.Feeds cur.rest (some (anyText scope cur))
      (some (anyText scope cur.feed)) :=
  paragraphBlock_fed .text _ scope hrest

/-! ## Tables -/

/-- A table of lines that are chosen has the same cells: a line feed at the end of a line belongs to
none of them. -/
lemma tableLines_fed {cs header dashed dashed' : Text} {ls ls' body body' : List Text}
    (hcs : cs ≠ []) (hls : lines cs = ls) (hls' : lines (cs ++ ['\n']) = ls')
    (h : Chosen ls ls' (header :: dashed :: body) (header :: dashed' :: body'))
    (align : List (Option Alignment)) (columns : Nat) (origin : Point) (scope : Scope) :
    Found.Fed Block.Leaf.Feeds cs
      (some ⟨header.length + dashed.length + body.flatten.length,
        .pending ⟨.table align (splitCells header)
            (body.map fun l => fitRow columns (splitCells l)),
          cs.take (header.length + dashed.length + body.flatten.length), origin, scope⟩⟩)
      (some ⟨header.length + dashed'.length + body'.flatten.length,
        .pending ⟨.table align (splitCells header)
            (body'.map fun l => fitRow columns (splitCells l)),
          (cs ++ ['\n']).take (header.length + dashed'.length + body'.flatten.length), origin,
          scope⟩⟩) := by
  subst hls hls'
  have hrows : body'.map (fun l => fitRow columns (splitCells l)) =
      body.map fun l => fitRow columns (splitCells l) := by
    have hcells := h.map (f := fun l => fitRow columns (splitCells l)) fun l => by
      rw [splitCells_feed]
    simp only [List.map_cons, List.cons.injEq] at hcells
    exact hcells.2.2
  have hlength (dashed : Text) (body : List Text) :
      header.length + dashed.length + body.flatten.length =
        (header :: dashed :: body).flatten.length := by
    simp [Nat.add_assoc]
  rw [hrows, hlength, hlength]
  refine h.fed hcs (fun hsame => ?_) fun _ => .table rfl
  rw [hsame, List.take_append_of_le_length h.length_le]
  exact ⟨rfl, .table rfl⟩

theorem table?_fed (scope : Scope) {cur : Cursor} (hrest : cur.rest ≠ []) :
    Found.Fed Block.Leaf.Feeds cur.rest (table? scope cur) (table? scope cur.feed) := by
  have hfed := fedLines_lines cur.rest
  simp only [table?, Cursor.feed_rest, Cursor.feed_point]
  generalize hlines : lines cur.rest = ls at hfed
  generalize hlines' : lines (cur.rest ++ ['\n']) = ls' at hfed
  cases hfed with
  | own => exact .none
  | last hne hl => exact .none
  | @cons header ls ls' hheader hls =>
    cases hls with
    | own =>
      dsimp only
      rw [if_pos (.inr (.inl (by decide)))]
      exact .none
    | @last dashed hne hdashed =>
      simp only [isDashLine_feed hdashed, splitCells_feed dashed, List.takeWhile_nil]
      split
      · exact .none
      · exact tableLines_fed hrest hlines hlines' (.cons hheader (.last hne hdashed)) _ _ _ _
    | @cons dashed ls ls' hdashed hls =>
      dsimp only
      split
      · exact .none
      · have hbody := Chosen.takeWhile (p := fun l => !isBlank l && l.contains '|')
          (fun l _ _ => by simp [isBlank_feed]) (by simp) hls
        exact tableLines_fed hrest hlines hlines' (.cons hheader (.cons hdashed hbody)) _ _ _ _

/-! ## Raw HTML -/

lemma indexOf?_feed {pattern : Text} (hfeed : '\n' ∉ pattern) (hne : pattern ≠ []) (cs : Text) :
    indexOf? pattern (cs ++ ['\n']) = indexOf? pattern cs := by
  induction cs with
  | nil =>
    have hprefix := isPrefixOf_feed hfeed []
    rw [List.nil_append] at hprefix
    cases pattern with
    | nil => exact absurd rfl hne
    | cons d pattern => simp [indexOf?, hprefix]
  | cons c cs ih =>
    have hprefix := isPrefixOf_feed hfeed (c :: cs)
    rw [List.cons_append] at hprefix
    simp only [List.cons_append, indexOf?, hprefix, ih]

lemma lineEndFrom_feed {cs : Text} {n : Nat} (h : n ≤ cs.length) :
    FedLength cs (lineEndFrom cs n) (lineEndFrom (cs ++ ['\n']) n) := by
  simp only [lineEndFrom, drop_feed h, restOfLine_feed, afterLine_feed]
  have hlength := length_restOfLine_add_afterLine (cs.drop n)
  rw [List.length_drop] at hlength
  cases hafter : afterLine (cs.drop n) with
  | nil =>
    rw [hafter, List.length_nil] at hlength
    exact .inr ⟨by simp; omega, by simp; omega⟩
  | cons c after =>
    have hc : c = '\n' := by
      have hnot := List.head?_dropWhile_not (· ≠ '\n') (cs.drop n)
      rw [show (cs.drop n).dropWhile (· ≠ '\n') = c :: after from hafter] at hnot
      simpa using hnot
    refine .inl ⟨rfl, ?_⟩
    have hcs : cs = cs.take n ++ (restOfLine (cs.drop n) ++ ['\n'] ++ after) := by
      rw [List.append_assoc, List.singleton_append, ← hc, ← hafter, restOfLine_append_afterLine,
        List.take_append_drop]
    have hstays := (stays_line (restOfLine (cs.drop n)) after).prepend (cs.take n)
    rw [← hcs, List.length_take, Nat.min_eq_left h, List.length_append, ← Nat.add_assoc] at hstays
    exact hstays

lemma lengthThrough_feed {closing : Text} (hfeed : '\n' ∉ closing) (hne : closing ≠ [])
    {searched cs : Text} (hlength : searched.length = cs.length) :
    FedLength cs (lengthThrough closing searched cs)
      (lengthThrough closing (searched ++ ['\n']) (cs ++ ['\n'])) := by
  simp only [lengthThrough, indexOf?_feed hfeed hne]
  cases hindex : indexOf? closing searched with
  | none => exact .inr ⟨rfl, List.length_append⟩
  | some n => exact lineEndFrom_feed (hlength ▸ indexOf?_add_le hindex)

lemma elementName_feed (cs : Text) : elementName (cs ++ ['\n']) = elementName cs := by
  cases cs with
  | nil => rfl
  | cons c cs =>
    simp only [List.cons_append, elementName, takeWhile_feed (p := isNameChar) (by decide)]

lemma dropFront_feed {c : Char} (hc : c ≠ '\n') (cs : Text) :
    dropFront c (cs ++ ['\n']) = dropFront c cs ++ ['\n'] := by
  cases cs with
  | nil => simp [dropFront, hc.symm]
  | cons d cs =>
    simp only [List.cons_append, dropFront]
    split <;> rfl

lemma lowerAscii_feed (cs : Text) : lowerAscii (cs ++ ['\n']) = lowerAscii cs ++ ['\n'] := by
  rw [lowerAscii, List.map_append]
  rfl

lemma feed_not_mem_of_rawElements {tag : Text}
    (h : rawElements.contains (String.ofList tag) = true) :
    '\n' ∉ "</".toList ++ tag ++ ">".toList := by
  have hraw : ∀ s ∈ rawElements, '\n' ∉ "</".toList ++ s.toList ++ ">".toList := by decide
  simpa using hraw _ (List.contains_iff_mem.1 h)

/-- Raw HTML covers as much as before, or everything and the line feed as well. -/
lemma htmlLength?_feed (cs : Text) :
    (htmlLength? cs = none ∧ htmlLength? (cs ++ ['\n']) = none) ∨
      ∃ n n', htmlLength? cs = some n ∧ htmlLength? (cs ++ ['\n']) = some n' ∧
        FedLength cs n n' := by
  have hblank := dropWhile_feed (p := (· = ' ')) (by decide) cs
  simp only [htmlLength?, hblank, length_feed_sub_feed,
    isPrefixOf_feed (by decide : '\n' ∉ "<!--".toList)]
  split
  · exact .inl ⟨rfl, rfl⟩
  · split
    · exact .inr ⟨_, _, rfl, rfl, lengthThrough_feed (by decide) (by decide) rfl⟩
    · cases hbody : cs.dropWhile (· = ' ') with
      | nil => exact .inl ⟨rfl, rfl⟩
      | cons c rest =>
        by_cases hc : c = '<'
        · subst hc
          simp only [List.cons_append, dropFront_feed (c := '/') (by decide), elementName_feed]
          split
          · split
            next hraw =>
              rw [lowerAscii_feed]
              exact .inr ⟨_, _, rfl, rfl,
                lengthThrough_feed (feed_not_mem_of_rawElements hraw) (by simp)
                  (List.length_map _)⟩
            next =>
              have hcs : cs ≠ [] := by
                rintro rfl
                cases hbody
              have hchosen := Chosen.takeWhile (p := fun l => !isBlank l)
                (fun l _ _ => by rw [isBlank_feed]) (by simp) (fedLines_lines cs)
              exact .inr ⟨_, _, rfl, rfl, hchosen.fedLength hcs⟩
          · exact .inl ⟨rfl, rfl⟩
        · simp [hc]

/-- Raw HTML takes the line feed if it goes on to the end.  That it ends open says just that. -/
theorem htmlBlock?_fed (cs : Text) :
    Found.Fed Block.Leaf.Feeds cs (htmlBlock? cs) (htmlBlock? (cs ++ ['\n'])) := by
  simp only [htmlBlock?]
  obtain ⟨hn, hn'⟩ | ⟨n, n', hn, hn', hfed⟩ := htmlLength?_feed cs
  · rw [hn, hn']
    exact .none
  · rw [hn, hn', Option.map_some, Option.map_some]
    obtain ⟨rfl, hlt | ⟨rfl, hlast⟩⟩ | ⟨rfl, rfl⟩ := hfed
    · rw [List.take_append_of_le_length hlt.le]
      exact .inside hlt
    · rw [List.take_append_of_le_length le_rfl, List.take_length]
      refine .apart hlast (Block.Leaf.Grows.refl ?_ _)
      simp [Block.Leaf.endsOpen, hn']
    · have htake : (cs ++ ['\n']).take (cs.length + 1) = cs ++ ['\n'] :=
        List.take_of_length_le (by simp)
      rw [List.take_length, htake]
      refine .grows (Block.Leaf.Grows.html ?_)
      simp [Block.Leaf.endsOpen, hn']

end Docmark
