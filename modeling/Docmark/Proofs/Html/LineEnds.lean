import Mathlib
import Docmark.Proofs.Html.Render
import Docmark.Proofs.Token.Inside

/-!
# Blocks end their lines

A block is written up to the end of a line, and so is everything that is put together from such
blocks.  The one exception is the text of a list item, which is written bare: its item sets it off,
by a paragraph element if the list is loose, and by a line feed if the item has more blocks.  So no
two blocks run together as long as texts stand in items.

## Main results

* `Block.exists_blockHtml_endsLine` — a block whose texts stand in items ends its line.
* `Block.exists_itemHtml_endsLine` — an item of several blocks ends the line of each.
-/

namespace Docmark

namespace Html

/-- HTML that is written up to the end of a line, or not at all. -/
def EndsLine (xs : List Html) : Prop := writeAll xs = [] ∨ (writeAll xs).getLast? = some '\n'

variable {xs ys : List Html}

lemma endsLine_nil : EndsLine [] := .inl rfl

lemma EndsLine.append (hx : EndsLine xs) (hy : EndsLine ys) : EndsLine (xs ++ ys) := by
  rw [EndsLine, writeAll_append]
  rcases hy with hy | hy
  · rwa [hy, List.append_nil]
  · exact .inr (by rw [List.getLast?_append, hy, Option.some_or])

lemma endsLine_then_lineFeed (xs : List Html) : EndsLine (xs ++ [lineFeed]) := by
  refine .inr ?_
  have hfeed : lineFeed.write = ['\n'] := by decide
  rw [writeAll_append, writeAll_singleton, hfeed, List.getLast?_concat]

end Html

open Html

/-! ## Leaves -/

lemma Inline.exists_inlinesHtml_standard_of {ts : List Inline}
    (h : ∀ t ∈ ts, ∃ xs, Renderer.standard.inlineHtml t = .ok xs) :
    ∃ xs, Renderer.standard.inlinesHtml ts = .ok xs := by
  induction ts with
  | nil =>
    rw [Renderer.inlinesHtml]
    exact ⟨[], rfl⟩
  | cons t ts ih =>
    obtain ⟨xs, hxs⟩ := h t List.mem_cons_self
    obtain ⟨ys, hys⟩ := ih fun u hu => h u (List.mem_cons_of_mem _ hu)
    rw [Renderer.inlinesHtml, hxs, hys]
    exact ⟨xs ++ ys, rfl⟩

lemma Inline.exists_inlineHtml_standard (t : Inline) :
    ∃ xs, Renderer.standard.inlineHtml t = .ok xs := by
  induction t using Inline.induction with
  | leaf h c =>
    rw [Renderer.inlineHtml]
    exact ⟨c.toHtml, rfl⟩
  | node h f ts ih =>
    obtain ⟨xs, hxs⟩ := Inline.exists_inlinesHtml_standard_of ih
    rw [Renderer.inlineHtml, hxs]
    exact ⟨f.toHtml xs, rfl⟩

/-- Inline tokens are rendered, whatever they are. -/
lemma Inline.exists_inlinesHtml_standard (ts : List Inline) :
    ∃ xs, Renderer.standard.inlinesHtml ts = .ok xs :=
  Inline.exists_inlinesHtml_standard_of fun t _ => t.exists_inlineHtml_standard

/-- A leaf ends its line, unless it is a text with content. -/
lemma Block.Leaf.exists_toHtml_endsLine {c : Block.Leaf}
    (hc : ∀ content, c = .text content → content = []) :
    ∃ xs, c.toHtml Renderer.standard.inlinesHtml = .ok xs ∧ EndsLine xs := by
  cases c with
  | text content =>
    rw [hc content rfl, Block.Leaf.toHtml, Renderer.inlinesHtml]
    exact ⟨[], rfl, endsLine_nil⟩
  | heading depth id content =>
    obtain ⟨xs, hxs⟩ := Inline.exists_inlinesHtml_standard content
    rw [Block.Leaf.toHtml, hxs]
    exact ⟨_, rfl, endsLine_then_lineFeed [_]⟩
  | paragraph content =>
    obtain ⟨xs, hxs⟩ := Inline.exists_inlinesHtml_standard content
    rw [Block.Leaf.toHtml, hxs]
    exact ⟨_, rfl, endsLine_then_lineFeed [_]⟩
  | table align header rows =>
    obtain ⟨header', hheader⟩ := exists_mapM_ok header
      fun ts _ => Inline.exists_inlinesHtml_standard ts
    obtain ⟨rows', hrows⟩ := exists_mapM_ok (f := (·.mapM Renderer.standard.inlinesHtml)) rows
      fun row _ => exists_mapM_ok row fun ts _ => Inline.exists_inlinesHtml_standard ts
    refine ⟨tableHtml align header' rows', ?_, endsLine_then_lineFeed [_]⟩
    simp only [Block.Leaf.toHtml, hheader, hrows, bind, Except.bind]
    rfl
  | html markup =>
    refine ⟨_, rfl, ?_⟩
    split
    next hlast => exact .inr (by rwa [writeAll_singleton])
    next => exact endsLine_then_lineFeed [_]
  | newline => exact ⟨[], rfl, endsLine_nil⟩
  | definition label href title => exact ⟨[], rfl, endsLine_nil⟩
  | pending p => exact ⟨[], rfl, endsLine_nil⟩
  | _ => exact ⟨_, rfl, endsLine_then_lineFeed [_]⟩

/-! ## Frames -/

/-- A frame around blocks that end their lines ends its line. -/
lemma Block.Frame.toHtml_endsLine (f : Block.Frame) (callout : Bool) {xs : List Html}
    (hx : f.isItem = true ∨ EndsLine xs) : EndsLine (f.toHtml callout xs) := by
  cases f with
  | document => exact hx.resolve_left Bool.false_ne_true
  | included path => exact hx.resolve_left Bool.false_ne_true
  | blockquote =>
    cases callout with
    | true => exact hx.resolve_left Bool.false_ne_true
    | false => exact endsLine_then_lineFeed [_]
  | _ => exact endsLine_then_lineFeed [_]

/-- A block whose texts, where they are not empty, each stand directly in an item. -/
def Block.SetsOffTexts (b : Block) : Prop :=
  ∀ above hd content, b.HasInside above (.leaf hd (.text content)) → content ≠ [] →
    above.getLast?.any (·.isItem) = true

lemma Block.SetsOffTexts.child {h : Head} {f : Block.Frame} {bs : List Block} {b : Block}
    (hnode : (Block.node h f bs).SetsOffTexts) (hb : b ∈ bs)
    (htext : f.isItem = true → ∀ hd content, b = .leaf hd (.text content) → content = []) :
    b.SetsOffTexts := by
  intro above hd content hinside hne
  have hlast := hnode (f :: above) hd content (.child hb hinside) hne
  cases above with
  | nil =>
    cases hinside
    exact absurd (htext (by simpa using hlast) hd content rfl) hne
  | cons g above => rwa [List.getLast?_cons_cons] at hlast

/-- What holds of the texts of a tree holds of those of the containers in it. -/
lemma Block.SetsOffTexts.inside {root : Block} (hroot : root.SetsOffTexts)
    {above : List Block.Frame} {h : Head} {f : Block.Frame} {bs : List Block}
    (hn : root.HasInside above (.node h f bs)) : (Block.node h f bs).SetsOffTexts := by
  intro inner hd content hinside hne
  have hlast := hroot (above ++ inner) hd content (hn.trans hinside) hne
  cases inner with
  | nil => cases hinside
  | cons g inner => rwa [List.getLast?_append_of_ne_nil _ (List.cons_ne_nil g inner)] at hlast

/-! ## Items -/

/-- The blocks of an item are rendered one after the other. -/
lemma Renderer.itemHtml_cons (r : Renderer) (loose several : Bool) (b : Block) (bs : List Block) :
    r.itemHtml loose several (b :: bs) = do
      let x ← r.itemHtml loose several [b]
      let xs ← r.itemHtml loose several bs
      return x ++ xs := by
  have hpiece (piece rest : Except Fault (List Html)) :
      (do let x ← piece; let xs ← rest; return x ++ xs) =
        (do let x ← (do let x ← piece; let xs ← .ok []; return x ++ xs)
            let xs ← rest
            return x ++ xs) := by
    cases piece with
    | error e => rfl
    | ok x =>
      show (do let xs ← rest; return x ++ xs) = do let xs ← rest; return x ++ [] ++ xs
      rw [List.append_nil]
  by_cases htext : ∃ hd content, b = .leaf hd (.text content)
  · obtain ⟨hd, content, rfl⟩ := htext
    rw [itemHtml, itemHtml, itemHtml]
    cases loose with
    | true => exact hpiece _ _
    | false => exact hpiece _ _
  · have htext (hd : Head) (content : List Inline) : b ≠ .leaf hd (.text content) :=
      fun hb => htext ⟨hd, content, hb⟩
    rw [itemHtml.eq_3 _ _ _ _ _ htext, itemHtml.eq_3 _ _ _ _ _ htext, itemHtml]
    exact hpiece _ _

/-- A block of an item ends its line if the item has several. -/
lemma Block.exists_itemHtml_endsLine (loose several : Bool) {b : Block}
    (hb : (∀ hd content, b ≠ .leaf hd (.text content)) →
      ∃ xs, Renderer.standard.blockHtml b = .ok xs ∧ EndsLine xs) :
    ∃ xs, Renderer.standard.itemHtml loose several [b] = .ok xs ∧
      (several = true → EndsLine xs) := by
  by_cases htext : ∃ hd content, b = .leaf hd (.text content)
  · obtain ⟨hd, content, rfl⟩ := htext
    obtain ⟨xs, hxs⟩ := Inline.exists_inlinesHtml_standard content
    have hleaf : Renderer.standard.leafHtml hd (.text content) = .ok xs := hxs
    rw [Renderer.itemHtml, Renderer.itemHtml, hxs, hleaf]
    cases loose with
    | true => exact ⟨paragraphHtml xs ++ [], rfl, fun _ => endsLine_then_lineFeed [_]⟩
    | false =>
      refine ⟨(xs ++ if several then [lineFeed] else []) ++ [], rfl, ?_⟩
      rintro rfl
      rw [List.append_nil]
      exact endsLine_then_lineFeed xs
  · have htext (hd : Head) (content : List Inline) : b ≠ .leaf hd (.text content) :=
      fun hb => htext ⟨hd, content, hb⟩
    obtain ⟨xs, hxs, hends⟩ := hb htext
    rw [Renderer.itemHtml.eq_3 _ _ _ _ _ htext, Renderer.itemHtml, hxs]
    exact ⟨xs ++ [], rfl, fun _ => by rwa [List.append_nil]⟩

/-! ## Trees of blocks -/

lemma Block.exists_blocksHtml_endsLine_of {bs : List Block}
    (h : ∀ b ∈ bs, ∃ xs, Renderer.standard.blockHtml b = .ok xs ∧ EndsLine xs) :
    ∃ xs, Renderer.standard.blocksHtml bs = .ok xs ∧ EndsLine xs := by
  induction bs with
  | nil =>
    rw [Renderer.blocksHtml]
    exact ⟨[], rfl, endsLine_nil⟩
  | cons b bs ih =>
    obtain ⟨xs, hxs, hends⟩ := h b List.mem_cons_self
    obtain ⟨ys, hys, hends'⟩ := ih fun d hd => h d (List.mem_cons_of_mem _ hd)
    rw [Renderer.blocksHtml, hxs, hys]
    exact ⟨xs ++ ys, rfl, hends.append hends'⟩

lemma Block.exists_itemHtml_standard_of (loose several : Bool) {bs : List Block}
    (h : ∀ b ∈ bs, ∃ xs, Renderer.standard.itemHtml loose several [b] = .ok xs) :
    ∃ xs, Renderer.standard.itemHtml loose several bs = .ok xs := by
  induction bs with
  | nil =>
    rw [Renderer.itemHtml]
    exact ⟨[], rfl⟩
  | cons b bs ih =>
    obtain ⟨xs, hxs⟩ := h b List.mem_cons_self
    obtain ⟨ys, hys⟩ := ih fun d hd => h d (List.mem_cons_of_mem _ hd)
    rw [Renderer.itemHtml_cons, hxs, hys]
    exact ⟨xs ++ ys, rfl⟩

/-- **Blocks end their lines.**  A block whose texts stand in items is rendered, up to the end of a
line. -/
theorem Block.exists_blockHtml_endsLine {b : Block} (hb : b.SetsOffTexts) :
    ∃ xs, Renderer.standard.blockHtml b = .ok xs ∧ EndsLine xs := by
  induction b using Block.induction with
  | leaf hd c =>
    rw [Renderer.blockHtml]
    refine Block.Leaf.exists_toHtml_endsLine fun content hc => ?_
    by_contra hne
    subst hc
    exact absurd (hb [] hd content (.self _) hne) (by simp)
  | node hd f bs ih =>
    by_cases hitem : f.isItem = true
    · obtain ⟨checked, loose, rfl⟩ := Block.Frame.exists_of_isItem hitem
      have hpiece (b : Block) (hmem : b ∈ bs) : ∃ xs,
          Renderer.standard.itemHtml loose (decide (1 < bs.length)) [b] = .ok xs := by
        obtain ⟨xs, hxs, -⟩ := Block.exists_itemHtml_endsLine loose (decide (1 < bs.length))
          fun htext => ih b hmem (hb.child hmem fun _ hd' content heq =>
            absurd heq (htext hd' content))
        exact ⟨xs, hxs⟩
      obtain ⟨xs, hxs⟩ := Block.exists_itemHtml_standard_of loose _ hpiece
      have hends : EndsLine (Block.Frame.toHtml false xs (.listItem checked loose)) :=
        Block.Frame.toHtml_endsLine _ false (.inl rfl)
      refine ⟨_, ?_, hends⟩
      rw [Renderer.blockHtml]
      simp only [Renderer.standard] at hxs ⊢
      rw [hxs]
      rfl
    · obtain ⟨xs, hxs, hends⟩ := Block.exists_blocksHtml_endsLine_of fun b hmem =>
        ih b hmem (hb.child hmem fun h => absurd h hitem)
      refine ⟨_, ?_, f.toHtml_endsLine (startsWithCallout bs) (.inr hends)⟩
      rw [Renderer.blockHtml]
      · simp only [Renderer.standard] at hxs ⊢
        rw [hxs]
        rfl
      · rintro checked loose rfl
        exact hitem rfl

end Docmark
