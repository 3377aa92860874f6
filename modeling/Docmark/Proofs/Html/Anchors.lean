import Mathlib
import Docmark.Proofs.Html.LineEnds
import Docmark.Proofs.Token.Height

/-!
# Anchors in anchors

How deep anchors are nested in the HTML of a tree is known before it is rendered: each link and each
address becomes one anchor, no other token becomes one, and no form of the renderer moves the
content of a token out of it.  So the depth of the anchors is the height of the tree under
`Weight.anchors`, whatever stands in the tree.  Markup from the document itself counts for nothing
here, as it is written and not made.

## Main results

* `Block.exists_blockHtml_anchorDepth` — the anchors of the HTML are as deep as those of the tree.
* `Block.anchors_height_le_one` — no anchor stands in another just when no link or address stands in
  a link.
-/

namespace Docmark

/-! ## Anchors of the output -/

mutual

/-- How many anchors lie inside each other, at most, in a piece of HTML. -/
def Html.anchorDepth : Html → Nat
  | .text _ => 0
  | .raw _ => 0
  | .element name _ children => (if name = "a" then 1 else 0) + Html.anchorDepthAll children
  | .void _ _ => 0

/-- How many anchors lie inside each other, at most, in some pieces of HTML. -/
def Html.anchorDepthAll : List Html → Nat
  | [] => 0
  | x :: xs => max x.anchorDepth (Html.anchorDepthAll xs)

end

/-- Counts the tokens that become anchors. -/
def Weight.anchors : Weight where
  block _ := 0
  inline k := if k = .link ∨ k = .autoLink then 1 else 0

namespace Html

@[simp] lemma anchorDepthAll_nil : anchorDepthAll [] = 0 := by
  simp [anchorDepthAll]

@[simp] lemma anchorDepthAll_cons (x : Html) (xs : List Html) :
    anchorDepthAll (x :: xs) = max x.anchorDepth (anchorDepthAll xs) := by
  simp [anchorDepthAll]

@[simp] lemma anchorDepthAll_append (xs ys : List Html) :
    anchorDepthAll (xs ++ ys) = max (anchorDepthAll xs) (anchorDepthAll ys) := by
  induction xs with
  | nil => simp
  | cons x xs ih => simp [ih, max_assoc]

@[simp] lemma anchorDepth_text (t : Text) : (Html.text t).anchorDepth = 0 := by
  simp [anchorDepth]

@[simp] lemma anchorDepth_raw (t : Text) : (Html.raw t).anchorDepth = 0 := by
  simp [anchorDepth]

@[simp] lemma anchorDepth_void (name : String) (attributes : List Attribute) :
    (Html.void name attributes).anchorDepth = 0 := by
  simp [anchorDepth]

@[simp] lemma anchorDepth_element (name : String) (attributes : List Attribute)
    (children : List Html) : (Html.element name attributes children).anchorDepth =
      (if name = "a" then 1 else 0) + anchorDepthAll children := by
  simp [anchorDepth]

@[simp] lemma anchorDepth_lineFeed : lineFeed.anchorDepth = 0 := anchorDepth_text _

end Html

open Html

/-! ## Inline tokens -/

lemma Inline.Leaf.toHtml_anchorDepth (c : Inline.Leaf) :
    anchorDepthAll c.toHtml = Weight.anchors.inline c.kind := by
  cases c <;> simp [Inline.Leaf.toHtml, Inline.Leaf.kind, Weight.anchors]

lemma Inline.Frame.toHtml_anchorDepth (f : Inline.Frame) (xs : List Html) :
    anchorDepthAll (f.toHtml xs) = Weight.anchors.inline f.kind + anchorDepthAll xs := by
  cases f <;> simp [Inline.Frame.toHtml, Inline.Frame.kind, Weight.anchors]

lemma Inline.inlinesHtml_anchorDepth_of {ts : List Inline}
    (h : ∀ t ∈ ts, ∀ xs, Renderer.standard.inlineHtml t = .ok xs →
      anchorDepthAll xs = t.height .anchors) {xs : List Html}
    (hxs : Renderer.standard.inlinesHtml ts = .ok xs) :
    anchorDepthAll xs = Inline.heightAll .anchors ts := by
  induction ts generalizing xs with
  | nil =>
    rw [Renderer.inlinesHtml] at hxs
    cases hxs
    simp
  | cons t ts ih =>
    rw [Renderer.inlinesHtml] at hxs
    obtain ⟨ys, hys, hxs⟩ := exists_of_bind_ok hxs
    obtain ⟨zs, hzs, hxs⟩ := exists_of_bind_ok hxs
    cases hxs
    rw [anchorDepthAll_append, Inline.heightAll_cons, h t List.mem_cons_self ys hys,
      ih (fun u hu => h u (List.mem_cons_of_mem _ hu)) hzs]

lemma Inline.inlineHtml_anchorDepth {t : Inline} {xs : List Html}
    (h : Renderer.standard.inlineHtml t = .ok xs) : anchorDepthAll xs = t.height .anchors := by
  induction t using Inline.induction generalizing xs with
  | leaf hd c =>
    rw [Renderer.inlineHtml] at h
    cases h
    rw [Inline.Leaf.toHtml_anchorDepth, Inline.height_leaf]
  | node hd f ts ih =>
    rw [Renderer.inlineHtml] at h
    obtain ⟨ys, hys, rfl⟩ := exists_of_map_ok h
    rw [Inline.Frame.toHtml_anchorDepth, Inline.height_node,
      Inline.inlinesHtml_anchorDepth_of (fun t ht _ hxs => ih t ht hxs) hys]

/-- The anchors of a sequence of inline tokens are as deep in its HTML as they are in it. -/
lemma Inline.inlinesHtml_anchorDepth {ts : List Inline} {xs : List Html}
    (h : Renderer.standard.inlinesHtml ts = .ok xs) :
    anchorDepthAll xs = Inline.heightAll .anchors ts :=
  Inline.inlinesHtml_anchorDepth_of (fun _ _ _ hxs => Inline.inlineHtml_anchorDepth hxs) h

/-! ## Tables -/

/-- The depth of the anchors in the cells of a row. -/
def cellDepth (cells : List (List Html)) : Nat := (cells.map anchorDepthAll).foldr max 0

lemma cells_anchorDepth {tag : String} (htag : tag ≠ "a") (align : List (Option Alignment))
    (cells : List (List Html)) (k : Nat) :
    anchorDepthAll ((cells.zipIdx k).flatMap fun (cell, i) =>
      [.element tag (Alignment.attribute (align[i]?.getD none)) cell, .lineFeed]) =
        cellDepth cells := by
  induction cells generalizing k with
  | nil => simp [cellDepth]
  | cons cell cells ih =>
    rw [List.zipIdx_cons, List.flatMap_cons, anchorDepthAll_append, ih]
    simp [cellDepth, htag]

lemma rowHtml_anchorDepth {tag : String} (htag : tag ≠ "a") (align : List (Option Alignment))
    (cells : List (List Html)) : (rowHtml tag align cells).anchorDepth = cellDepth cells := by
  rw [rowHtml, anchorDepth_element, anchorDepthAll_cons, cells_anchorDepth htag]
  simp

lemma rows_anchorDepth (align : List (Option Alignment)) (rows : List (List (List Html))) :
    anchorDepthAll (rows.flatMap fun r => [rowHtml "td" align r, .lineFeed]) =
      (rows.map cellDepth).foldr max 0 := by
  induction rows with
  | nil => simp
  | cons row rows ih =>
    rw [List.flatMap_cons, anchorDepthAll_append, ih]
    simp [rowHtml_anchorDepth]

lemma tableHtml_anchorDepth (align : List (Option Alignment)) (header : List (List Html))
    (rows : List (List (List Html))) :
    anchorDepthAll (tableHtml align header rows) =
      max (cellDepth header) ((rows.map cellDepth).foldr max 0) := by
  cases rows with
  | nil => simp [tableHtml, rowHtml_anchorDepth]
  | cons row rows =>
    have hbody := rows_anchorDepth align (row :: rows)
    simp only [tableHtml, List.isEmpty_cons, Bool.false_eq_true, if_false, anchorDepthAll_cons,
      anchorDepthAll_append, anchorDepth_element, hbody]
    simp [rowHtml_anchorDepth]

/-- Cells that were rendered from inline sequences. -/
lemma cellDepth_of_mapM {cells : List (List Inline)} {xs : List (List Html)}
    (h : cells.mapM Renderer.standard.inlinesHtml = .ok xs) :
    cellDepth xs = Inline.heightRows .anchors cells := by
  have hcells := forall₂_of_mapM_ok h
  clear h
  induction hcells with
  | nil => rfl
  | cons hcell _ ih =>
    rw [Inline.heightRows_cons, ← ih, ← Inline.inlinesHtml_anchorDepth hcell]
    rfl

lemma rowsDepth_of_mapM {rows : List (List (List Inline))} {xs : List (List (List Html))}
    (h : rows.mapM (·.mapM Renderer.standard.inlinesHtml) = .ok xs) :
    (xs.map cellDepth).foldr max 0 = Inline.heightRows .anchors rows.flatten := by
  have hrows := forall₂_of_mapM_ok h
  clear h
  induction hrows with
  | nil => rfl
  | cons hrow _ ih =>
    rw [List.map_cons, List.foldr_cons, ih, cellDepth_of_mapM hrow, List.flatten_cons,
      Inline.heightRows_append]

/-! ## Blocks -/

lemma heading_ne_anchor (depth : Nat) : s!"h{depth}" ≠ "a" := by
  intro heq
  have hfirst : (s!"h{depth}").toList.head? = some 'h' := by simp [toString]
  rw [heq] at hfirst
  exact absurd hfirst (by decide)

lemma Block.Leaf.toHtml_anchorDepth {c : Block.Leaf} {xs : List Html}
    (h : c.toHtml Renderer.standard.inlinesHtml = .ok xs) :
    anchorDepthAll xs = c.height .anchors := by
  have hheight : c.height .anchors = Inline.heightRows .anchors c.inlines := Nat.zero_add _
  rw [hheight]
  cases c with
  | heading depth id content =>
    obtain ⟨ys, hys, rfl⟩ := exists_of_map_ok h
    rw [headingHtml, anchorDepthAll_cons, anchorDepth_element, if_neg (heading_ne_anchor depth)]
    simp [Inline.inlinesHtml_anchorDepth hys, Block.Leaf.inlines]
  | paragraph content =>
    obtain ⟨ys, hys, rfl⟩ := exists_of_map_ok h
    simp [paragraphHtml, Inline.inlinesHtml_anchorDepth hys, Block.Leaf.inlines]
  | text content =>
    simp [Inline.inlinesHtml_anchorDepth h, Block.Leaf.inlines]
  | table align header rows =>
    obtain ⟨header', hheader, h⟩ := exists_of_bind_ok h
    obtain ⟨rows', hrows, h⟩ := exists_of_bind_ok h
    cases h
    rw [tableHtml_anchorDepth, cellDepth_of_mapM hheader, rowsDepth_of_mapM hrows,
      Block.Leaf.inlines, Inline.heightRows_append]
  | html markup =>
    cases h
    split <;> simp [Block.Leaf.inlines]
  | code lang t =>
    cases h
    simp [codeHtml, Block.Leaf.inlines]
  | video url =>
    cases h
    simp [videoHtml, Block.Leaf.inlines]
  | _ =>
    cases h
    simp [sourceHtml, Block.Leaf.inlines]

lemma taskHtml_anchorDepth (checked : Option Bool) : anchorDepthAll (taskHtml checked) = 0 := by
  cases checked <;> simp [taskHtml]

lemma Block.Frame.toHtml_anchorDepth (f : Block.Frame) (callout : Bool) (xs : List Html) :
    anchorDepthAll (f.toHtml callout xs) = anchorDepthAll xs := by
  cases f with
  | blockquote => cases callout <;> simp [Block.Frame.toHtml]
  | list ordered start loose => cases ordered <;> simp [Block.Frame.toHtml]
  | listItem checked loose => simp [Block.Frame.toHtml, taskHtml_anchorDepth]
  | _ => simp [Block.Frame.toHtml]

/-- A leaf is rendered, whatever it is. -/
lemma Block.Leaf.exists_toHtml_standard (c : Block.Leaf) :
    ∃ xs, c.toHtml Renderer.standard.inlinesHtml = .ok xs := by
  by_cases htext : ∃ content, c = .text content
  · obtain ⟨content, rfl⟩ := htext
    exact Inline.exists_inlinesHtml_standard content
  · obtain ⟨xs, hxs, -⟩ := Block.Leaf.exists_toHtml_endsLine (c := c)
      fun content hc => absurd ⟨content, hc⟩ htext
    exact ⟨xs, hxs⟩

lemma Block.exists_blocksHtml_anchorDepth_of {bs : List Block}
    (h : ∀ b ∈ bs, ∃ xs, Renderer.standard.blockHtml b = .ok xs ∧
      anchorDepthAll xs = b.height .anchors) :
    ∃ xs, Renderer.standard.blocksHtml bs = .ok xs ∧
      anchorDepthAll xs = Block.heightAll .anchors bs := by
  induction bs with
  | nil =>
    rw [Renderer.blocksHtml]
    exact ⟨[], rfl, by simp⟩
  | cons b bs ih =>
    obtain ⟨xs, hxs, hdepth⟩ := h b List.mem_cons_self
    obtain ⟨ys, hys, hdepth'⟩ := ih fun d hd => h d (List.mem_cons_of_mem _ hd)
    rw [Renderer.blocksHtml, hxs, hys]
    refine ⟨xs ++ ys, rfl, ?_⟩
    rw [anchorDepthAll_append, Block.heightAll_cons, hdepth, hdepth']

/-- The text of an item is rendered in a form of its own, which adds no anchor. -/
lemma Block.exists_itemHtml_anchorDepth (loose several : Bool) {b : Block}
    (h : ∃ xs, Renderer.standard.blockHtml b = .ok xs ∧ anchorDepthAll xs = b.height .anchors) :
    ∃ xs, Renderer.standard.itemHtml loose several [b] = .ok xs ∧
      anchorDepthAll xs = b.height .anchors := by
  by_cases htext : ∃ hd content, b = .leaf hd (.text content)
  · obtain ⟨hd, content, rfl⟩ := htext
    have hheight : (Block.leaf hd (.text content)).height .anchors =
        Inline.heightAll .anchors content := by
      simp [Block.Leaf.height, Block.Leaf.inlines, Weight.anchors]
    obtain ⟨xs, hxs⟩ := Inline.exists_inlinesHtml_standard content
    have hleaf : Renderer.standard.leafHtml hd (.text content) = .ok xs := hxs
    rw [Renderer.itemHtml, Renderer.itemHtml, hxs, hleaf, hheight,
      ← Inline.inlinesHtml_anchorDepth hxs]
    cases loose with
    | true => exact ⟨paragraphHtml xs ++ [], rfl, by simp [paragraphHtml]⟩
    | false =>
      refine ⟨(xs ++ if several then [lineFeed] else []) ++ [], rfl, ?_⟩
      cases several <;> simp
  · obtain ⟨xs, hxs, hdepth⟩ := h
    rw [Renderer.itemHtml.eq_3 _ _ _ _ _ fun hd content hb => htext ⟨hd, content, hb⟩,
      Renderer.itemHtml, hxs]
    exact ⟨xs ++ [], rfl, by rwa [List.append_nil]⟩

lemma Block.exists_itemHtml_anchorDepth_of (loose several : Bool) {bs : List Block}
    (h : ∀ b ∈ bs, ∃ xs, Renderer.standard.blockHtml b = .ok xs ∧
      anchorDepthAll xs = b.height .anchors) :
    ∃ xs, Renderer.standard.itemHtml loose several bs = .ok xs ∧
      anchorDepthAll xs = Block.heightAll .anchors bs := by
  induction bs with
  | nil =>
    rw [Renderer.itemHtml]
    exact ⟨[], rfl, by simp⟩
  | cons b bs ih =>
    obtain ⟨xs, hxs, hdepth⟩ :=
      Block.exists_itemHtml_anchorDepth loose several (h b List.mem_cons_self)
    obtain ⟨ys, hys, hdepth'⟩ := ih fun d hd => h d (List.mem_cons_of_mem _ hd)
    rw [Renderer.itemHtml_cons, hxs, hys]
    refine ⟨xs ++ ys, rfl, ?_⟩
    rw [anchorDepthAll_append, Block.heightAll_cons, hdepth, hdepth']

/-- **Anchors are rendered where they stand.**  A block is rendered, and its anchors are as deep in
its HTML as they are in its tree. -/
theorem Block.exists_blockHtml_anchorDepth (b : Block) :
    ∃ xs, Renderer.standard.blockHtml b = .ok xs ∧ anchorDepthAll xs = b.height .anchors := by
  induction b using Block.induction with
  | leaf hd c =>
    obtain ⟨xs, hxs⟩ := c.exists_toHtml_standard
    rw [Renderer.blockHtml, Block.height_leaf]
    exact ⟨xs, hxs, Block.Leaf.toHtml_anchorDepth hxs⟩
  | node hd f bs ih =>
    have hheight : (Block.node hd f bs).height .anchors = Block.heightAll .anchors bs := by
      rw [Block.height_node]
      exact Nat.zero_add _
    rw [hheight]
    by_cases hitem : f.isItem = true
    · obtain ⟨checked, loose, rfl⟩ := Block.Frame.exists_of_isItem hitem
      obtain ⟨xs, hxs, hdepth⟩ :=
        Block.exists_itemHtml_anchorDepth_of loose (decide (1 < bs.length)) ih
      refine ⟨_, ?_,
        (Block.Frame.toHtml_anchorDepth (.listItem checked loose) false xs).trans hdepth⟩
      rw [Renderer.blockHtml]
      simp only [Renderer.standard] at hxs ⊢
      rw [hxs]
      rfl
    · obtain ⟨xs, hxs, hdepth⟩ := Block.exists_blocksHtml_anchorDepth_of ih
      refine ⟨_, ?_, (f.toHtml_anchorDepth (startsWithCallout bs) xs).trans hdepth⟩
      rw [Renderer.blockHtml]
      · simp only [Renderer.standard] at hxs ⊢
        rw [hxs]
        rfl
      · rintro checked loose rfl
        exact hitem rfl

/-! ## Anchors of a tree -/

lemma Weight.anchors_inline_le (k : InlineTag) : Weight.anchors.inline k ≤ 1 := by
  simp only [Weight.anchors]
  split <;> omega

lemma Weight.anchors_inline_eq_zero {k : InlineTag} :
    Weight.anchors.inline k = 0 ↔ k ≠ .link ∧ k ≠ .autoLink := by
  simp [Weight.anchors]

/-- No anchor stands in another just when no link and no address stands in a link. -/
lemma Inline.anchors_height_le_one {t : Inline} :
    t.height .anchors ≤ 1 ↔
      ∀ n ∈ t.nodes, n.kind = .link → ∀ u ∈ Inline.nodesAll n.children,
        u.kind ≠ .link ∧ u.kind ≠ .autoLink := by
  induction t using Inline.induction with
  | leaf h c =>
    rw [Inline.height_leaf]
    simp [Inline.children, Weight.anchors_inline_le]
  | node h f ts ih =>
    have hbelow : Inline.heightAll .anchors ts ≤ 1 ↔ ∀ t ∈ ts, ∀ n ∈ t.nodes, n.kind = .link →
        ∀ u ∈ Inline.nodesAll n.children, u.kind ≠ .link ∧ u.kind ≠ .autoLink := by
      rw [Inline.heightAll_le]
      exact forall₂_congr ih
    have hnone : Inline.heightAll .anchors ts = 0 ↔
        ∀ u ∈ Inline.nodesAll ts, u.kind ≠ .link ∧ u.kind ≠ .autoLink := by
      rw [← Nat.le_zero, Inline.heightAll_le]
      simp only [Nat.le_zero, Inline.height_eq_zero, Weight.anchors_inline_eq_zero,
        Inline.mem_nodesAll]
      constructor
      · rintro h u ⟨t, ht, hu⟩
        exact h t ht u hu
      · intro h t ht u hu
        exact h u ⟨t, ht, hu⟩
    rw [Inline.forall_nodes_node, ← hbelow, Inline.height_node]
    show _ ↔ (f.kind = .link → ∀ u ∈ Inline.nodesAll ts, u.kind ≠ .link ∧ u.kind ≠ .autoLink) ∧ _
    rw [← hnone]
    by_cases hlink : f.kind = .link
    · have hweight : Weight.anchors.inline f.kind = 1 := by simp [Weight.anchors, hlink]
      rw [hweight]
      constructor
      · intro hle
        exact ⟨fun _ => by omega, by omega⟩
      · rintro ⟨hzero, -⟩
        rw [hzero hlink]
    · have hauto : f.kind ≠ .autoLink := by cases f <;> simp [Inline.Frame.kind]
      rw [Weight.anchors_inline_eq_zero.2 ⟨hlink, hauto⟩, Nat.zero_add]
      exact ⟨fun hle => ⟨fun h => absurd h hlink, hle⟩, fun h => h.2⟩

/-- Blocks are no anchors, so a tree of blocks is as high as the inline tokens in it. -/
lemma Block.anchors_height_le {b : Block} {n : Nat} :
    b.height .anchors ≤ n ↔
      ∀ c ∈ b.nodes, ∀ ts ∈ c.inlines, ∀ t ∈ ts, t.height .anchors ≤ n := by
  induction b using Block.induction with
  | leaf h c =>
    have hheight : c.height .anchors = Inline.heightRows .anchors c.inlines := Nat.zero_add _
    rw [Block.height_leaf, hheight, Inline.heightRows_le]
    simp only [Block.nodes_leaf, List.mem_singleton, forall_eq, Block.inlines]
    exact forall₂_congr fun ts _ => Inline.heightAll_le
  | node h f bs ih =>
    have hheight : (Block.node h f bs).height .anchors = Block.heightAll .anchors bs := by
      rw [Block.height_node]
      exact Nat.zero_add _
    rw [hheight, Block.heightAll_le, Block.forall_nodes_node]
    simp only [Block.inlines, List.not_mem_nil, false_implies, implies_true, true_and]
    exact forall₂_congr ih

/-- No anchor stands in another just when no link and no address stands in a link. -/
lemma Block.anchors_height_le_one {b : Block} :
    b.height .anchors ≤ 1 ↔
      ∀ n ∈ b.inlineNodes, n.kind = .link → ∀ u ∈ Inline.nodesAll n.children,
        u.kind ≠ .link ∧ u.kind ≠ .autoLink := by
  rw [Block.anchors_height_le]
  simp only [Inline.anchors_height_le_one, Block.inlineNodes, List.mem_flatMap,
    Inline.mem_nodesAll]
  constructor
  · rintro h n ⟨c, hc, ts, hts, t, ht, hn⟩
    exact h c hc ts hts t ht n hn
  · intro h c hc ts hts t ht n hn
    exact h n ⟨c, hc, ts, hts, t, ht, hn⟩

end Docmark
