import Mathlib
import Docmark.Proofs.Container.BlankLines
import Docmark.Proofs.FinalFeed.Reading
import Docmark.Proofs.Reading.CodeBlocks

/-!
# Blank lines between and in blocks

The blocks of a text tile it, so each has a stretch of the text for itself, and a blank line of the
text stands somewhere among them: behind the content of one block and in front of the next, within
one block, or in front of all.  What settles the question is the rule for blank lines, which is
tried first: what it takes is white space, and what it leaves to another rule does not start with a
line feed.

## Main definitions

* `BlocksApart` — a blank line stands between two blocks.
* `BlankInside` — a blank line stands within a block.
* `StartsBlank` — a text starts with white space over two lines.

## Main results

* `exists_parts` — the stretches of the blocks of a text.
* `TellsBlankLine.iff_parts` — where a blank line of a text stands.
-/

namespace Docmark

/-! ## Stretches -/

/-- A block with the stretch of a text that it spans. -/
structure Part where
  block : Block
  text : Text

/-- Blocks next to each other from a point on, each over the stretch of its part. -/
def Abut : Point → List Part → Prop
  | _, [] => True
  | p, part :: parts =>
    part.block.span = ⟨p, p.advance part.text⟩ ∧ Abut (p.advance part.text) parts

namespace Part

/-- Whether a part is nothing but blank lines. -/
def isGap (part : Part) : Bool := part.block.kind == .newline

/-- A part as a reading cuts it off: blank lines are white space, and nothing else starts with a
line feed. -/
structure IsCut (part : Part) : Prop where
  ne_nil : part.text ≠ []
  blank : part.isGap = true → isBlank part.text = true
  flush : part.isGap = false → part.text.head? ≠ some '\n'

end Part

/-- A blank line stands between two blocks: one follows the other, with nothing but blank lines in
between, and behind the content of the first a line is blank. -/
def BlocksApart (parts : List Part) : Prop :=
  ∃ before b gaps next after, parts = before ++ b :: (gaps ++ next :: after) ∧
    b.isGap = false ∧ next.isGap = false ∧ (∀ g ∈ gaps, g.isGap = true) ∧
    ∃ behind, HasBlankLine (b.text ++ gaps.flatMap Part.text) behind ∧ isBlank behind = true

/-- A blank line stands within a block, with content of the block behind it. -/
def BlankInside (parts : List Part) : Prop :=
  ∃ b ∈ parts, b.isGap = false ∧ ∃ behind, HasBlankLine b.text behind ∧ isBlank behind = false

/-- A text starts with white space over two lines. -/
def StartsBlank (cs : Text) : Prop :=
  ∃ front rest, cs = front ++ rest ∧ isBlank front = true ∧ 2 ≤ front.count '\n'

/-! ## Where a blank line stands -/

section Place

variable {parts : List Part}

/-- A character of a text that is cut into parts stands in one of them. -/
lemma exists_part_of_flatMap {before after : Text} {c : Char}
    (h : parts.flatMap Part.text = before ++ c :: after) :
    ∃ front b rest start stop, parts = front ++ b :: rest ∧ b.text = start ++ c :: stop ∧
      before = front.flatMap Part.text ++ start ∧ after = stop ++ rest.flatMap Part.text := by
  induction parts generalizing before with
  | nil => simp at h
  | cons b parts ih =>
    have hlater {before' : Text} (hbefore : before = b.text ++ before')
        (hrest : parts.flatMap Part.text = before' ++ c :: after) :
        ∃ front b' rest start stop, b :: parts = front ++ b' :: rest ∧
          b'.text = start ++ c :: stop ∧ before = front.flatMap Part.text ++ start ∧
            after = stop ++ rest.flatMap Part.text := by
      obtain ⟨front, b', rest, start, stop, rfl, hb', rfl, rfl⟩ := ih hrest
      exact ⟨b :: front, b', rest, start, stop, rfl, hb', by simp [hbefore], rfl⟩
    rw [List.flatMap_cons] at h
    rcases List.append_eq_append_iff.1 h with ⟨before', hbefore, hrest⟩ | ⟨stop, hb, hstop⟩
    · exact hlater hbefore hrest
    · cases stop with
      | nil =>
        refine @hlater [] ?_ ?_
        · rw [hb, List.append_nil, List.append_nil]
        · simpa using hstop.symm
      | cons c' stop =>
        rw [List.cons_append, List.cons.injEq] at hstop
        obtain ⟨rfl, rfl⟩ := hstop
        exact ⟨[], b, parts, before, stop, rfl, hb, rfl, rfl⟩

lemma isBlank_flatMap (h : ∀ b ∈ parts, b.IsCut) (hgaps : ∀ b ∈ parts, b.isGap = true) :
    isBlank (parts.flatMap Part.text) = true := by
  refine List.all_eq_true.2 fun c hc => ?_
  obtain ⟨b, hb, hc⟩ := List.mem_flatMap.1 hc
  exact List.all_eq_true.1 ((h b hb).blank (hgaps b hb)) c hc

/-- Parts that are not all blank lines have a first one that is not. -/
lemma exists_first_block (h : ¬ ∀ b ∈ parts, b.isGap = true) :
    ∃ gaps b after, parts = gaps ++ b :: after ∧ b.isGap = false ∧ ∀ g ∈ gaps, g.isGap = true := by
  induction parts with
  | nil => simp at h
  | cons b parts ih =>
    cases hb : b.isGap with
    | false => exact ⟨[], b, parts, rfl, hb, by simp⟩
    | true =>
      obtain ⟨gaps, b', after, rfl, hb', hgaps⟩ := ih (by simpa [hb] using h)
      exact ⟨b :: gaps, b', after, rfl, hb', by simpa [hb] using hgaps⟩

/-- Parts that are not all blank lines have a last one that is not. -/
lemma exists_last_block (h : ¬ ∀ b ∈ parts, b.isGap = true) :
    ∃ before b gaps, parts = before ++ b :: gaps ∧ b.isGap = false ∧
      ∀ g ∈ gaps, g.isGap = true := by
  obtain ⟨gaps, b, after, hparts, hb, hgaps⟩ := @exists_first_block parts.reverse
    (by simpa using h)
  refine ⟨after.reverse, b, gaps.reverse, ?_, hb, by simpa using hgaps⟩
  rw [← List.reverse_reverse parts, hparts]
  simp

/-- **Where a blank line of a text stands.**  If something that is not blank follows it, it stands
between two blocks, within one, or in front of all of them. -/
lemma stands_of_feed (hparts : ∀ b ∈ parts, b.IsCut) {before after : Text}
    (hsplit : parts.flatMap Part.text = before ++ '\n' :: after)
    (hbefore : before.getLast? = some '\n') (hafter : isBlank after = false) :
    BlocksApart parts ∨ BlankInside parts ∨ StartsBlank (parts.flatMap Part.text) := by
  obtain ⟨front, b, rest, start, stop, rfl, hb, rfl, rfl⟩ := exists_part_of_flatMap hsplit
  obtain ⟨hfront, hb', hrest⟩ : (∀ p ∈ front, p.IsCut) ∧ b.IsCut ∧ ∀ p ∈ rest, p.IsCut := by
    rwa [List.forall_mem_append, List.forall_mem_cons] at hparts
  -- what follows a blank stretch has a first block
  have hnext (hstop : isBlank stop = true) : ∃ gaps next behind, rest = gaps ++ next :: behind ∧
      next.isGap = false ∧ ∀ g ∈ gaps, g.isGap = true := by
    refine exists_first_block fun hgaps => ?_
    rw [isBlank_append, hstop, isBlank_flatMap hrest hgaps] at hafter
    cases hafter
  cases hgap : b.isGap with
  | false =>
    have hstart : start.getLast? = some '\n' := by
      cases start with
      | nil => exact absurd (by rw [hb]; rfl) (hb'.flush hgap)
      | cons c start => rwa [List.getLast?_append_of_ne_nil _ (List.cons_ne_nil _ _)] at hbefore
    have hline : HasBlankLine b.text stop := hb ▸ hasBlankLine_of_feed hstart stop
    cases hstop : isBlank stop with
    | false => exact .inr (.inl ⟨b, by simp, hgap, stop, hline, hstop⟩)
    | true =>
      obtain ⟨gaps, next, behind, rfl, hnext, hgaps⟩ := hnext hstop
      refine .inl ⟨front, b, gaps, next, behind, rfl, hgap, hnext, hgaps, _, hline.inside [] _, ?_⟩
      rw [isBlank_append, hstop, isBlank_flatMap ?_ hgaps, Bool.and_true]
      exact fun g hg => hrest g (List.mem_append_left _ hg)
  | true =>
    obtain ⟨hstart, hstop⟩ : isBlank start = true ∧ isBlank stop = true := by
      have hblank := hb'.blank hgap
      rw [hb, List.append_cons, isBlank_append, isBlank_append, Bool.and_eq_true,
        Bool.and_eq_true] at hblank
      exact ⟨hblank.1.1, hblank.2⟩
    by_cases hgaps : ∀ g ∈ front, g.isGap = true
    · refine .inr (.inr ⟨front.flatMap Part.text ++ start ++ ['\n'], stop ++ rest.flatMap Part.text,
        by simp [hb], ?_, ?_⟩)
      · rw [isBlank_feed, isBlank_append, isBlank_flatMap hfront hgaps, hstart, Bool.and_true]
      · have hcount := List.one_le_count_iff.2 (List.mem_of_getLast? hbefore)
        rw [List.count_append, List.count_singleton_self]
        omega
    · obtain ⟨earlier, b₁, gaps₁, rfl, hb₁, hgaps₁⟩ := exists_last_block hgaps
      obtain ⟨gaps₂, next, behind, rfl, hnext, hgaps₂⟩ := hnext hstop
      have hends : (b₁.text ++ gaps₁.flatMap Part.text ++ start).getLast? = some '\n' := by
        have hne : b₁.text ++ gaps₁.flatMap Part.text ++ start ≠ [] := by
          simp [(hfront b₁ (by simp)).ne_nil]
        rw [← List.getLast?_append_of_ne_nil (earlier.flatMap Part.text) hne]
        simpa using hbefore
      refine .inl ⟨earlier, b₁, gaps₁ ++ b :: gaps₂, next, behind, by simp, hb₁, hnext, ?_,
        stop ++ gaps₂.flatMap Part.text, ?_, ?_⟩
      · rw [List.forall_mem_append, List.forall_mem_cons]
        exact ⟨hgaps₁, hgap, hgaps₂⟩
      · have hline := hasBlankLine_of_feed hends (stop ++ gaps₂.flatMap Part.text)
        simpa [hb] using hline
      · rw [isBlank_append, hstop, isBlank_flatMap ?_ hgaps₂, Bool.and_true]
        exact fun g hg => hrest g (List.mem_append_left _ hg)

/-- What tells of a blank line tells where it stands. -/
lemma TellsBlankLine.iff_parts {spaced : Bool} (hparts : ∀ b ∈ parts, b.IsCut)
    (h : TellsBlankLine spaced (parts.flatMap Part.text)) :
    spaced = true ↔
      BlocksApart parts ∨ BlankInside parts ∨ StartsBlank (parts.flatMap Part.text) := by
  constructor
  · intro hspaced
    obtain ⟨before, after, hsplit, hbefore, hafter⟩ := h.exists_feed hspaced
    exact stands_of_feed hparts hsplit hbefore hafter
  · have htold (front cs rest : Text) {behind : Text}
        (hsplit : parts.flatMap Part.text = front ++ cs ++ rest) (hline : HasBlankLine cs behind) :
        spaced = true :=
      h.told _ (hsplit ▸ hline.inside front rest)
    rintro (⟨before, b, gaps, next, after, rfl, -, -, -, behind, hline, -⟩ |
      ⟨b, hb, -, behind, hline, -⟩ | ⟨front, rest, hsplit, hblank, hcount⟩)
    · exact htold (before.flatMap Part.text) (b.text ++ gaps.flatMap Part.text)
        (next.text ++ after.flatMap Part.text) (by simp) hline
    · obtain ⟨before, after, rfl⟩ := List.append_of_mem hb
      exact htold (before.flatMap Part.text) b.text (after.flatMap Part.text) (by simp) hline
    · obtain ⟨behind, hline⟩ := exists_hasBlankLine_of_isBlank hblank hcount
      exact htold [] front rest hsplit hline

end Place

/-! ## The parts of a reading -/

lemma isBlank_of_blankLines? {cs : Text} {m : Found Block.Leaf} (h : blankLines? cs = some m) :
    isBlank (cs.take m.length) = true := by
  have hinitial := flatten_initial (List.takeWhile_prefix (l := lines cs) isPadLine)
  simp only [blankLines?] at h
  split at h
  next =>
    cases h
    rw [← List.prefix_iff_eq_take.1 hinitial]
    refine List.all_eq_true.2 fun c hc => ?_
    obtain ⟨line, hline, hc⟩ := List.mem_flatten.1 hc
    exact List.all_eq_true.1 (isBlank_of_isPadLine (List.mem_takeWhile_imp hline)) c hc
  next =>
    split at h
    next hpads =>
      cases h
      rw [List.take_length]
      exact isBlank_of_isPad hpads.2
    next => cases h

/-- A line feed starts blank lines. -/
lemma exists_blankLines?_of_feed (rest : Text) :
    ∃ n, blankLines? ('\n' :: rest) = some ⟨n, .newline⟩ := by
  have hlines : lines ('\n' :: rest) = ['\n'] :: lines rest :=
    lines_of_line List.not_mem_nil rest
  rw [blankLines?, hlines, List.takeWhile_cons_of_pos rfl]
  exact ⟨_, if_pos (by simp)⟩

section Reading

variable {rules : RuleSet} (hrules : rules.IsStandard) (hskips : rules.SkipsBlank)
  {nest : Option BlockReader} {scope : Scope} {cur : Cursor}

include hrules hskips

/-- What one step takes is cut off as it should be. -/
lemma isCut_of_nextBlock {m : Match Block} (h : nextBlock rules nest scope cur = .ok (some m))
    (hrest : cur.rest ≠ []) (hlength : m.length ≠ 0) :
    (Part.mk m.token (cur.rest.take m.length)).IsCut where
  ne_nil := by simp [hrest, hlength]
  blank hgap := by
    obtain ⟨c, found, -, hfound, rfl⟩ := nextBlock_some hrules h
    have hmade : c.made = .newline :=
      (BlockConstruct.recognize_kind hfound).symm.trans (eq_of_beq hgap)
    cases c with
    | newline =>
      obtain ⟨leaf, hleaf, rfl⟩ := Option.map_eq_some_iff.1 (Except.ok.inj hfound)
      exact isBlank_of_blankLines? hleaf
    | _ => cases hmade
  flush hgap hfeed := by
    obtain ⟨rest, hcur⟩ : ∃ rest, cur.rest = '\n' :: rest := by
      obtain ⟨after, hafter⟩ := List.head?_eq_some_iff.1 hfeed
      refine ⟨after ++ cur.rest.drop m.length, ?_⟩
      rw [← List.cons_append, ← hafter, List.take_append_drop]
    obtain ⟨n, hn⟩ := exists_blankLines?_of_feed rest
    rw [nextBlock_of_blankLines hskips (hcur ▸ hn)] at h
    cases h
    cases hgap

/-- **The stretches of the blocks of a text.** -/
lemma exists_parts_of_readAll (hfault : (readAll (nextBlock rules nest scope) cur).fault = none) :
    ∃ parts : List Part, parts.map Part.block = (readAll (nextBlock rules nest scope) cur).tokens ∧
      parts.flatMap Part.text = cur.rest ∧ Abut cur.point parts ∧ ∀ b ∈ parts, b.IsCut := by
  fun_induction readAll (nextBlock rules nest scope) cur with
  | case1 cur hrest => exact ⟨[], rfl, by simp [hrest], trivial, by simp⟩
  | case2 => cases hfault
  | case3 => cases hfault
  | case4 => cases hfault
  | case5 cur hrest m hm hlength rest ih =>
    obtain ⟨parts, hblocks, htext, habut, hcut⟩ := ih hfault
    have hspan : m.token.span = ⟨cur.point, cur.point.advance (cur.rest.take m.length)⟩ := by
      obtain ⟨c, found, -, -, rfl⟩ := nextBlock_some hrules hm
      exact Block.span_ofBody _ _
    refine ⟨⟨m.token, cur.rest.take m.length⟩ :: parts, ?_, ?_, ⟨hspan, habut⟩, ?_⟩
    · rw [List.map_cons, hblocks]
    · rw [List.flatMap_cons, htext]
      exact List.take_append_drop m.length cur.rest
    · exact List.forall_mem_cons.2 ⟨isCut_of_nextBlock hrules hskips hm hrest hlength, hcut⟩

lemma exists_parts {text : Text} {origin : Point} {bs : List Block}
    (h : (runBlocks rules nest scope text origin).toExcept = .ok bs) :
    ∃ parts : List Part, parts.map Part.block = bs ∧ parts.flatMap Part.text = text ∧
      Abut origin parts ∧ ∀ b ∈ parts, b.IsCut := by
  obtain ⟨hfault, rfl⟩ := Run.tokens_of_toExcept h
  exact exists_parts_of_readAll hrules hskips hfault

end Reading

end Docmark
