import Mathlib
import Docmark.Proofs.Reading.Total

/-!
# Tokens tile their text

The tokens of a reading lie next to each other: the first starts where the text starts, each next
one where the one before it ended, none is empty, and the last one ends where the text ends.  So no
character is lost and none belongs to two tokens.

The invariant is kept by one step, whatever the rule: a token of the language's own constructs spans
the characters by which the cursor moves behind it (`nextBlock_some`, `nextInline_some`), and a step
moves the cursor by at least one of them.  The second pass keeps the head of every block, and with
it the span.

## Main results

* `tokens_tile` — the blocks and the inline tokens of a text tile it, the second pass keeps rule
  names and spans, and the blocks of a document tile the whole input.
-/

namespace Docmark

/-! ## Spans in a row -/

/-- Spans that lie next to each other from `p` to `q`, none of them empty. -/
def Tiles : Point → List Span → Point → Prop
  | p, [], q => p = q
  | p, s :: ss, q => s.start = p ∧ 0 < s.length ∧ Tiles s.stop ss q

@[simp] lemma tiles_nil {p q : Point} : Tiles p [] q ↔ p = q := Iff.rfl

@[simp] lemma tiles_cons {p q : Point} {s : Span} {ss : List Span} :
    Tiles p (s :: ss) q ↔ s.start = p ∧ 0 < s.length ∧ Tiles s.stop ss q := Iff.rfl

/-! ## One step -/

/-- What a cursor passes over and what is left behind it make up what it had before. -/
lemma Cursor.drop_advance (cur : Cursor) (n : Nat) :
    (cur.drop n).point.advance (cur.drop n).rest = cur.point.advance cur.rest := by
  simp only [Cursor.drop]
  rw [← Point.advance_append, List.take_append_drop]

/-- A step that takes something where something is left has a span that is not empty. -/
lemma Cursor.spanOf_length_pos {cur : Cursor} {n : Nat} (hrest : cur.rest ≠ []) (hn : n ≠ 0) :
    0 < (cur.spanOf n).length := by
  have htake : cur.rest.take n ≠ [] := by simp [hrest, hn]
  have hbytes := byteLength_pos htake
  simp only [Span.length, Cursor.spanOf, Cursor.drop, Point.advance_offset]
  omega

/-! ## A whole reading -/

section Reading

variable {α : Type} {next : Cursor → Except Fault (Option (Match α))} {span : α → Span}

/-- A reading tiles its input if every step's token spans the characters that the step takes. -/
lemma readAll_tiles
    (h : ∀ cur m, next cur = .ok (some m) → span m.token = cur.spanOf m.length) (cur : Cursor)
    (hfault : (readAll next cur).fault = none) :
    Tiles cur.point ((readAll next cur).tokens.map span) (cur.point.advance cur.rest) := by
  fun_induction readAll next cur with
  | case1 cur hrest => simp [hrest]
  | case2 => cases hfault
  | case3 => cases hfault
  | case4 => cases hfault
  | case5 cur hrest m hm hlen rest ih =>
    have hspan := h cur m hm
    rw [List.map_cons, tiles_cons, hspan]
    refine ⟨rfl, Cursor.spanOf_length_pos hrest hlen, ?_⟩
    -- the rest of the tokens start where the cursor stands behind this one
    rw [← cur.drop_advance m.length]
    exact ih hfault

lemma toExcept_tiles
    (h : ∀ cur m, next cur = .ok (some m) → span m.token = cur.spanOf m.length) {text : Text}
    {origin : Point} {ts : List α}
    (hts : (readAll next (Cursor.ofText text origin)).toExcept = .ok ts) :
    Tiles origin (ts.map span) (origin.advance text) := by
  obtain ⟨hfault, rfl⟩ := Run.tokens_of_toExcept hts
  exact readAll_tiles h (Cursor.ofText text origin) hfault

end Reading

/-! ## Blocks and inlines -/

@[simp] lemma Block.span_ofBody (h : Head) (b : Block.Body) : (Block.ofBody h b).span = h.span := by
  cases b <;> rfl

@[simp] lemma Inline.span_ofBody (h : Head) (b : Inline.Body) :
    (Inline.ofBody h b).span = h.span := by
  cases b <;> rfl

section Standard

variable {rules : RuleSet} (hrules : rules.IsStandard) {text : Text} {origin : Point}

include hrules

lemma runBlocks_tiles {nest : Option BlockReader} {scope : Scope} {bs : List Block}
    (h : (runBlocks rules nest scope text origin).toExcept = .ok bs) :
    Tiles origin (bs.map Block.span) (origin.advance text) := by
  refine toExcept_tiles ?_ h
  intro cur m hm
  obtain ⟨c, found, -, -, rfl⟩ := nextBlock_some hrules hm
  exact Block.span_ofBody _ _

lemma runInlines_tiles {defs : Definitions} {nest : Option InlineReader} {scope : Scope}
    {ts : List Inline} (h : runInlines rules defs nest scope text origin = .ok ts) :
    Tiles origin (ts.map Inline.span) (origin.advance text) := by
  refine toExcept_tiles ?_ h
  intro cur m hm
  obtain ⟨c, found, -, -, rfl⟩ := nextInline_some hrules hm
  exact Inline.span_ofBody _ _

lemma readInlines_tiles {defs : Definitions} {scope : Scope} {ts : List Inline}
    (h : readInlines rules defs scope text origin = .ok ts) :
    Tiles origin (ts.map Inline.span) (origin.advance text) := by
  simp only [readInlines] at h
  cases hbudget : scope.budget with
  | zero =>
    rw [hbudget] at h
    exact runInlines_tiles hrules h
  | succ n =>
    rw [hbudget] at h
    exact runInlines_tiles hrules h

end Standard

/-! ## The second pass -/

/-- Completing a block keeps its rule name and its span. -/
lemma Block.head_resolve {read : InlineReader} {b b' : Block} (h : b.resolve read = .ok b') :
    b'.head = b.head := by
  cases b with
  | leaf hd c =>
    by_cases hpending : ∃ p, c = .pending p
    · obtain ⟨p, rfl⟩ := hpending
      rw [Block.resolve] at h
      obtain ⟨l, -, rfl⟩ := exists_of_map_ok h
      rfl
    · rw [Block.resolve.eq_2 read hd c fun p hp => hpending ⟨p, hp⟩] at h
      cases h
      rfl
  | node hd f bs =>
    rw [Block.resolve] at h
    obtain ⟨bs', -, rfl⟩ := exists_of_map_ok h
    rfl

lemma Block.heads_resolveAll {read : InlineReader} {bs bs' : List Block}
    (h : Block.resolveAll read bs = .ok bs') : bs'.map Block.head = bs.map Block.head := by
  have hforall := Block.resolveAll_forall₂ h
  clear h
  induction hforall with
  | nil => rfl
  | cons hb _ ih => rw [List.map_cons, List.map_cons, Block.head_resolve hb, ih]

/-! ## Documents -/

/-- **Tokens tile their text.**  Under a rule set of the language's own constructs the blocks of a
text, and likewise its inline tokens, tile it from any origin; the second pass keeps the number of
blocks, their order, their rule names and their spans; and so the blocks of a document tile the
whole input. -/
theorem tokens_tile {rules : RuleSet} (hrules : rules.IsStandard) :
    (∀ scope text origin bs, (scanBlocks rules scope text origin).toExcept = .ok bs →
      Tiles origin (bs.map Block.span) (origin.advance text)) ∧
    (∀ defs scope text origin ts, readInlines rules defs scope text origin = .ok ts →
      Tiles origin (ts.map Inline.span) (origin.advance text)) ∧
    (∀ (read : InlineReader) bs bs', Block.resolveAll read bs = .ok bs' →
      bs'.map Block.head = bs.map Block.head) ∧
    ∀ defs scope text root, (readWith rules defs scope text).1 = .ok root →
      root.span = ⟨Point.start, Point.start.advance text⟩ ∧
        Tiles Point.start (root.children.map Block.span) (Point.start.advance text) := by
  refine ⟨?_, ?_, ?_, ?_⟩
  · intro scope text origin bs h
    exact runBlocks_tiles hrules h
  · intro defs scope text origin ts h
    exact readInlines_tiles hrules h
  · intro read bs bs' h
    exact Block.heads_resolveAll h
  · intro defs scope text root h
    obtain ⟨bs, bs', hbs, hbs', rfl⟩ := readWith_ok h
    refine ⟨rfl, ?_⟩
    have hheads := Block.heads_resolveAll hbs'
    have hspans : bs'.map Block.span = bs.map Block.span := by
      have hmap (ds : List Block) : ds.map Block.span = (ds.map Block.head).map Head.span := by
        rw [List.map_map]
        rfl
      rw [hmap, hmap, hheads]
    show Tiles Point.start (bs'.map Block.span) (Point.start.advance text)
    rw [hspans]
    exact runBlocks_tiles hrules hbs

/-- A heading, a blank line and a quote that start further down in a file, tiled by the largest
dialect from there. -/
theorem tokens_tile_dfm :
    dfmRules.IsStandard ∧
    ∃ bs, (scanBlocks dfmRules Scope.document "# é\n\n> b".toList ⟨3, 5, 40⟩).toExcept = .ok bs ∧
      Tiles ⟨3, 5, 40⟩ (bs.map Block.span) ⟨5, 4, 49⟩ := by
  have hrules : dfmRules.IsStandard := Flavor.rules_isStandard .dfm
  have htext : dfmRules.HasText := Flavor.rules_hasText .dfm
  have hbs := Run.toExcept_of_fault_none
    (scanBlocks_fault hrules htext Scope.document "# é\n\n> b".toList ⟨3, 5, 40⟩)
  have hstop : (⟨3, 5, 40⟩ : Point).advance "# é\n\n> b".toList = ⟨5, 4, 49⟩ := by decide
  refine ⟨hrules, _, hbs, ?_⟩
  rw [← hstop]
  exact (tokens_tile hrules).1 _ _ _ _ hbs

end Docmark
