import Mathlib
import Docmark.Html.Render
import Docmark.Proofs.Html.Attributes
import Docmark.Proofs.Outcome
import Docmark.Proofs.Token.Nodes

/-!
# Rendering is well-formed

Without raw HTML in a document, the standard forms write well-formed markup, in which every text
from the document stands escaped.  `Block.written` lists these texts in the order in which they are
written, so that the grammar accounts for each of them.

The proof follows the tree: for every kind of leaf, that its form is well-formed with the texts of
the leaf in it; for every kind of frame, that its form is if what is inside it is.

## Main results

* `render_wellFormed` — rendering succeeds and writes well-formed markup with the document's texts.
-/

namespace Docmark

/-! ## The texts of a document -/

/-- The texts of an inline leaf that are written. -/
def Inline.Leaf.written : Inline.Leaf → List Text
  | .text t => [t]
  | .escape t => [t]
  | .raw t => [t]
  | .directive d => [d.raw]
  | .image src title alt => src :: alt :: title.toList
  | .codeSpan code => [code]
  | .br => []
  | .tag markup => [markup]
  | .autoLink href t => [href, t]
  | .xref uid source => [uid, source]

/-- The texts of an inline frame itself that are written. -/
def Inline.Frame.written : Inline.Frame → List Text
  | .link href title => href :: title.toList
  | .strong => []
  | .em => []
  | .del => []
  | .included _ => []

mutual

/-- The texts of an inline token, in the order in which they are written. -/
def Inline.written : Inline → List Text
  | .leaf _ content => content.written
  | .node _ frame children => frame.written ++ Inline.writtenAll children

/-- The texts of some inline tokens, in the order in which they are written. -/
def Inline.writtenAll : List Inline → List Text
  | [] => []
  | t :: ts => t.written ++ Inline.writtenAll ts

end

/-- The texts of a block leaf, in the order in which they are written. -/
def Block.Leaf.written : Block.Leaf → List Text
  | .heading _ id content => id.toList ++ Inline.writtenAll content
  | .paragraph content => Inline.writtenAll content
  | .text content => Inline.writtenAll content
  | .table _ header rows => (header ++ rows.flatten).flatMap Inline.writtenAll
  | .code lang t => lang.toList ++ [t]
  | .hr => []
  | .html markup => [markup]
  | .video url => [url]
  | .directive d => [d.raw]
  | .raw t => [t]
  | .newline => []
  | .definition _ _ _ => []
  | .pending _ => []

/-- The texts of a block frame itself that are written; of the attributes of a division, the values
that are found in them. -/
def Block.Frame.written : Block.Frame → List Text
  | .note kind => [kind, kind]
  | .division attributes => (attributesIn attributes).filterMap (·.value)
  | _ => []

mutual

/-- The texts of a block, in the order in which they are written. -/
def Block.written : Block → List Text
  | .leaf _ content => content.written
  | .node _ frame children => frame.written ++ Block.writtenAll children

/-- The texts of some blocks, in the order in which they are written. -/
def Block.writtenAll : List Block → List Text
  | [] => []
  | b :: bs => b.written ++ Block.writtenAll bs

end

/-! ## Pieces of HTML -/

/-- Pieces of HTML that are written as well-formed markup with the given texts in it. -/
def Html.Shows (ps : List Text) (xs : List Html) : Prop := WellFormed ps (Html.writeAll xs)

namespace Html

lemma writeAll_append (xs ys : List Html) : writeAll (xs ++ ys) = writeAll xs ++ writeAll ys := by
  induction xs with
  | nil => simp [writeAll]
  | cons x xs ih => simp [writeAll, ih]

@[simp] lemma writeAll_singleton (x : Html) : writeAll [x] = x.write := by
  simp [writeAll]

lemma shows_nil : Shows [] [] := by
  simpa [Shows, writeAll] using WellFormed.nil

variable {ps qs : List Text} {xs ys : List Html}

lemma Shows.append (hx : Shows ps xs) (hy : Shows qs ys) : Shows (ps ++ qs) (xs ++ ys) := by
  rw [Shows, writeAll_append]
  exact WellFormed.append hx hy

lemma shows_text (t : Text) : Shows [t] [.text t] := by
  simpa [Shows, write] using WellFormed.text (escapeHtml_escapes t)

lemma shows_lineFeed : Shows [] [lineFeed] := by
  simpa [Shows, write, lineFeed, escapeChar] using WellFormed.space (c := '\n') (by simp)

lemma shows_space : Shows [] [.text [' ']] := by
  simpa [Shows, write, escapeChar] using WellFormed.space (c := ' ') (by simp)

lemma Shows.then_lineFeed (h : Shows ps xs) : Shows ps (xs ++ [lineFeed]) := by
  simpa using h.append shows_lineFeed

lemma Shows.after_lineFeed (h : Shows ps xs) : Shows ps (lineFeed :: xs) := by
  simpa using shows_lineFeed.append h

lemma shows_void {name : String} {as : List Attribute} (hname : name ∈ voidNames)
    (has : Attribute.Shows ps as) : Shows ps [.void name as] := by
  simpa [Shows, write, writeTag] using WellFormed.void hname has

lemma Shows.element {name : String} {as : List Attribute} (hname : IsElementName name)
    (has : Attribute.Shows ps as) (h : Shows qs xs) :
    Shows (ps ++ qs) [.element name as xs] := by
  simpa [Shows, write, writeTag] using WellFormed.element hname has h

/-- An element without attributes. -/
lemma Shows.bare {name : String} (hname : IsElementName name) (h : Shows ps xs) :
    Shows ps [.element name [] xs] :=
  Shows.element hname Attribute.Shows.nil h

end Html

/-! ## The standard forms -/

open Html

lemma isElementName_heading (level : Nat) : IsElementName s!"h{level}" := .inr ⟨level, rfl⟩

lemma titleAttribute_shows (title : Option Text) :
    Attribute.Shows title.toList (titleAttribute title) := by
  cases title with
  | none => exact .nil
  | some t => exact .cons_text (by decide) .nil

/-! ### Inlines -/

lemma Inline.Leaf.toHtml_shows {c : Inline.Leaf} (hc : c.kind ≠ .tag) :
    Shows c.written c.toHtml := by
  cases c with
  | text t => exact shows_text t
  | escape t => exact shows_text t
  | raw t => exact shows_text t
  | directive d => exact shows_text d.raw
  | image src title alt =>
    have halt := Attribute.Shows.cons_text (t := alt) (by decide : "alt" ∈ attributeNames)
      (titleAttribute_shows title)
    exact shows_void (by decide) (.cons_text (by decide) halt)
  | codeSpan code => exact Shows.bare (.inl (by decide)) (shows_text code)
  | br => exact (shows_void (by decide) .nil).then_lineFeed
  | tag markup => exact absurd rfl hc
  | autoLink href t =>
    exact Shows.element (.inl (by decide)) (.cons_text (by decide) .nil) (shows_text t)
  | xref uid source =>
    have hstrict : IsFixedValue (if source.head? = some '<' then "True" else "False").toList := by
      split <;> simp [IsFixedValue]
    exact Shows.element (.inl (by decide))
      (.cons_text (by decide) (.cons_fixed (by decide) hstrict (.cons_text (by decide) .nil)))
      shows_nil

lemma Inline.Frame.toHtml_shows {ps : List Text} {xs : List Html} (f : Inline.Frame)
    (h : Shows ps xs) : Shows (f.written ++ ps) (f.toHtml xs) := by
  cases f with
  | link href title =>
    have hattributes := Attribute.Shows.cons_text (t := href) (by decide : "href" ∈ attributeNames)
      (titleAttribute_shows title)
    exact Shows.element (.inl (by decide)) hattributes h
  | strong => exact Shows.bare (.inl (by decide)) h
  | em => exact Shows.bare (.inl (by decide)) h
  | del => exact Shows.bare (.inl (by decide)) h
  | included path => exact h

lemma Inline.exists_inlinesHtml_of {ts : List Inline}
    (h : ∀ t ∈ ts, ∃ xs, Renderer.standard.inlineHtml t = .ok xs ∧ Shows t.written xs) :
    ∃ xs, Renderer.standard.inlinesHtml ts = .ok xs ∧ Shows (Inline.writtenAll ts) xs := by
  induction ts with
  | nil =>
    rw [Renderer.inlinesHtml, Inline.writtenAll]
    exact ⟨[], rfl, shows_nil⟩
  | cons t ts ih =>
    obtain ⟨xs, hxs, hshows⟩ := h t List.mem_cons_self
    obtain ⟨ys, hys, hshows'⟩ := ih fun u hu => h u (List.mem_cons_of_mem _ hu)
    rw [Renderer.inlinesHtml, Inline.writtenAll, hxs, hys]
    exact ⟨xs ++ ys, rfl, hshows.append hshows'⟩

/-- Inline tokens without raw tags are rendered, and show their texts. -/
lemma Inline.exists_inlineHtml {t : Inline} (h : ∀ n ∈ t.nodes, n.kind ≠ .tag) :
    ∃ xs, Renderer.standard.inlineHtml t = .ok xs ∧ Shows t.written xs := by
  induction t using Inline.induction with
  | leaf hd c =>
    rw [Renderer.inlineHtml, Inline.written]
    have hc : c.kind ≠ .tag := h (.leaf hd c) (by simp)
    exact ⟨c.toHtml, rfl, Inline.Leaf.toHtml_shows hc⟩
  | node hd f ts ih =>
    rw [Inline.forall_nodes_node] at h
    obtain ⟨xs, hxs, hshows⟩ := Inline.exists_inlinesHtml_of fun t ht => ih t ht (h.2 t ht)
    rw [Renderer.inlineHtml, Inline.written, hxs]
    exact ⟨f.toHtml xs, rfl, f.toHtml_shows hshows⟩

lemma Inline.exists_inlinesHtml {ts : List Inline} (h : ∀ t ∈ ts, ∀ n ∈ t.nodes, n.kind ≠ .tag) :
    ∃ xs, Renderer.standard.inlinesHtml ts = .ok xs ∧ Shows (Inline.writtenAll ts) xs :=
  Inline.exists_inlinesHtml_of fun t ht => Inline.exists_inlineHtml (h t ht)

/-! ### Tables -/

lemma alignment_shows (a : Option Alignment) : Attribute.Shows [] (Alignment.attribute a) := by
  cases a with
  | none => exact .nil
  | some a => cases a <;> exact .cons_fixed (by decide) (by simp [IsFixedValue]) .nil

/-- The cells of a row, numbered from `k` on. -/
lemma cells_shows {tag : String} (htag : IsElementName tag) (align : List (Option Alignment))
    {pss : List (List Text)} {cells : List (List Html)} (h : List.Forall₂ Shows pss cells)
    (k : Nat) :
    Shows pss.flatten ((cells.zipIdx k).flatMap fun (cell, i) =>
      [.element tag (Alignment.attribute (align[i]?.getD none)) cell, .lineFeed]) := by
  induction h generalizing k with
  | nil => exact shows_nil
  | cons hcell _ ih =>
    rw [List.zipIdx_cons, List.flatMap_cons, List.flatten_cons]
    exact (Shows.element htag (alignment_shows _) hcell).then_lineFeed.append (ih (k + 1))

lemma rowHtml_shows {tag : String} (htag : IsElementName tag) (align : List (Option Alignment))
    {pss : List (List Text)} {cells : List (List Html)} (h : List.Forall₂ Shows pss cells) :
    Shows pss.flatten [rowHtml tag align cells] :=
  Shows.bare (.inl (by decide)) (cells_shows htag align h 0).after_lineFeed

lemma rows_shows (align : List (Option Alignment)) {body : List (List (List Text))}
    {rows : List (List (List Html))} (h : List.Forall₂ (List.Forall₂ Shows) body rows) :
    Shows body.flatten.flatten (rows.flatMap fun r => [rowHtml "td" align r, .lineFeed]) := by
  induction h with
  | nil => exact shows_nil
  | cons hrow _ ih =>
    rw [List.flatMap_cons, List.flatten_cons, List.flatten_append]
    exact (rowHtml_shows (.inl (by decide)) align hrow).then_lineFeed.append ih

lemma tableHtml_shows (align : List (Option Alignment)) {head : List (List Text)}
    {body : List (List (List Text))} {header : List (List Html)}
    {rows : List (List (List Html))} (hheader : List.Forall₂ Shows head header)
    (hrows : List.Forall₂ (List.Forall₂ Shows) body rows) :
    Shows (head.flatten ++ body.flatten.flatten) (tableHtml align header rows) := by
  have hrow := rowHtml_shows (.inl (by decide : "th" ∈ elementNames)) align hheader
  have hhead : Shows head.flatten [.lineFeed,
      .element "thead" [] [.lineFeed, rowHtml "th" align header, .lineFeed], .lineFeed] :=
    (Shows.bare (.inl (by decide)) hrow.then_lineFeed.after_lineFeed).then_lineFeed.after_lineFeed
  have hbody : Shows body.flatten.flatten (if rows.isEmpty then [] else
      [.element "tbody" [] (.lineFeed :: rows.flatMap fun r => [rowHtml "td" align r, .lineFeed]),
        .lineFeed]) := by
    cases hrows with
    | nil => exact shows_nil
    | cons hrow hrows =>
      exact (Shows.bare (.inl (by decide))
        (rows_shows align (.cons hrow hrows)).after_lineFeed).then_lineFeed
  exact (Shows.bare (.inl (by decide)) (hhead.append hbody)).then_lineFeed

/-! ### Blocks -/

lemma sourceHtml_shows (t : Text) : Shows [t] (sourceHtml t) := (shows_text t).then_lineFeed

lemma headingHtml_shows {ps : List Text} {xs : List Html} (depth : Nat) (id : Option Text)
    (h : Shows ps xs) : Shows (id.toList ++ ps) (headingHtml depth id xs) := by
  have hattributes : Attribute.Shows id.toList (id.map (Attribute.of "id")).toList := by
    cases id with
    | none => exact .nil
    | some t => exact .cons_text (by decide) .nil
  exact (Shows.element (isElementName_heading depth) hattributes h).then_lineFeed

lemma paragraphHtml_shows {ps : List Text} {xs : List Html} (h : Shows ps xs) :
    Shows ps (paragraphHtml xs) :=
  (Shows.bare (.inl (by decide)) h).then_lineFeed

lemma codeHtml_shows (lang : Option Text) (t : Text) :
    Shows (lang.toList ++ [t]) (codeHtml lang t) := by
  have hattributes : Attribute.Shows lang.toList
      (lang.map fun l => Attribute.of "class" ("lang-".toList ++ l)).toList := by
    cases lang with
    | none => exact .nil
    | some l =>
      have hlang : IsFixedValue "lang-".toList := by simp [IsFixedValue]
      exact Attribute.Shows.cons (by decide) (.of_append hlang l) .nil
  have hcode := Shows.element (.inl (by decide : "code" ∈ elementNames)) hattributes
    (shows_text t).then_lineFeed
  exact (Shows.bare (.inl (by decide)) hcode).then_lineFeed

lemma videoHtml_shows (url : Text) : Shows [url] (videoHtml url) := by
  have hzero : IsFixedValue "0".toList := by simp [IsFixedValue]
  have htrue : IsFixedValue "true".toList := by simp [IsFixedValue]
  have hembedded : IsFixedValue "embeddedvideo".toList := by simp [IsFixedValue]
  have hframe := Shows.element (.inl (by decide : "iframe" ∈ elementNames))
    (.cons_text (t := url) (by decide : "src" ∈ attributeNames)
      (.cons_fixed (by decide : "frameborder" ∈ attributeNames) hzero
        (.cons_fixed (by decide : "allowfullscreen" ∈ attributeNames) htrue .nil)))
    shows_nil
  have hattributes := Attribute.Shows.cons_fixed (by decide : "class" ∈ attributeNames)
    hembedded .nil
  exact (Shows.element (.inl (by decide)) hattributes hframe).then_lineFeed

/-- A block leaf without raw markup is rendered, and shows its texts. -/
lemma Block.Leaf.exists_toHtml {c : Block.Leaf} (hc : c.kind ≠ .html)
    (h : ∀ ts ∈ c.inlines, ∀ u ∈ ts, ∀ t ∈ u.nodes, t.kind ≠ .tag) :
    ∃ xs, c.toHtml Renderer.standard.inlinesHtml = .ok xs ∧ Shows c.written xs := by
  have hrow (ts : List Inline) (hts : ts ∈ c.inlines) :
      ∃ xs, Renderer.standard.inlinesHtml ts = .ok xs ∧ Shows (Inline.writtenAll ts) xs :=
    Inline.exists_inlinesHtml (h ts hts)
  cases c with
  | heading depth id content =>
    obtain ⟨xs, hxs, hshows⟩ := hrow content (by simp [Block.Leaf.inlines])
    rw [Block.Leaf.toHtml, hxs]
    exact ⟨_, rfl, headingHtml_shows depth id hshows⟩
  | paragraph content =>
    obtain ⟨xs, hxs, hshows⟩ := hrow content (by simp [Block.Leaf.inlines])
    rw [Block.Leaf.toHtml, hxs]
    exact ⟨_, rfl, paragraphHtml_shows hshows⟩
  | text content => exact hrow content (by simp [Block.Leaf.inlines])
  | table align header rows =>
    obtain ⟨header', hheader, hhead⟩ := exists_mapM_forall₂ header fun ts hts =>
      hrow ts (by simp [Block.Leaf.inlines, hts])
    obtain ⟨rows', hrows, hbody⟩ := exists_mapM_forall₂ rows fun row hmem =>
      exists_mapM_forall₂ row fun ts hts =>
        hrow ts (by simp only [Block.Leaf.inlines, List.mem_append, List.mem_flatten]
                    exact .inr ⟨row, hmem, hts⟩)
    refine ⟨tableHtml align header' rows', ?_, ?_⟩
    · simp only [Block.Leaf.toHtml, hheader, hrows, bind, Except.bind]
      rfl
    · have hhead' := List.forall₂_map_left_iff.2 hhead
      have hbody' := List.forall₂_map_left_iff.2
        (hbody.imp fun _ _ h => List.forall₂_map_left_iff.2 h)
      have hshows := tableHtml_shows align hhead' hbody'
      simpa [Block.Leaf.written, List.flatMap, List.map_flatten, Function.comp_def] using hshows
  | code lang t => exact ⟨_, rfl, codeHtml_shows lang t⟩
  | hr => exact ⟨_, rfl, (shows_void (by decide) .nil).then_lineFeed⟩
  | html markup => exact absurd rfl hc
  | video url => exact ⟨_, rfl, videoHtml_shows url⟩
  | directive d => exact ⟨_, rfl, sourceHtml_shows d.raw⟩
  | raw t => exact ⟨_, rfl, sourceHtml_shows t⟩
  | newline => exact ⟨_, rfl, shows_nil⟩
  | definition label href title => exact ⟨_, rfl, shows_nil⟩
  | pending p => exact ⟨_, rfl, shows_nil⟩

lemma taskHtml_shows (checked : Option Bool) : Shows [] (taskHtml checked) := by
  have hbox : IsFixedValue "checkbox".toList := by simp [IsFixedValue]
  have hempty : IsFixedValue [] := by simp [IsFixedValue]
  cases checked with
  | none => exact shows_nil
  | some checked =>
    have hstate : Attribute.Shows [] (if checked then [Attribute.of "checked" []] else []) := by
      cases checked with
      | true => exact .cons_fixed (by decide) hempty .nil
      | false => exact .nil
    have hattributes := Attribute.Shows.cons_fixed (by decide : "type" ∈ attributeNames) hbox
      (.cons_fixed (by decide : "disabled" ∈ attributeNames) hempty hstate)
    exact (shows_void (by decide) hattributes).append shows_space

lemma startAttribute_shows (ordered : Bool) (start : Option Nat) :
    Attribute.Shows [] (startAttribute ordered start) := by
  cases start with
  | none => exact .nil
  | some n =>
    have hnumber : IsFixedValue (toString n).toList := fun c hc =>
      .inl (isAlphanum_of_mem_toString hc)
    simp only [startAttribute]
    split
    · exact .cons_fixed (by decide) hnumber .nil
    · exact .nil

lemma Block.Frame.toHtml_shows {ps : List Text} {xs : List Html} (f : Block.Frame)
    (callout : Bool) (h : Shows ps xs) : Shows (f.written ++ ps) (f.toHtml callout xs) := by
  cases f with
  | document => exact h
  | included path => exact h
  | blockquote =>
    cases callout with
    | true => exact h
    | false => exact (Shows.bare (.inl (by decide)) h.after_lineFeed).then_lineFeed
  | list ordered start loose =>
    have hname : IsElementName (if ordered then "ol" else "ul") := by
      cases ordered <;> exact .inl (by decide)
    exact (Shows.element hname (startAttribute_shows ordered start) h.after_lineFeed).then_lineFeed
  | listItem checked loose =>
    exact (Shows.bare (.inl (by decide)) ((taskHtml_shows checked).append h)).then_lineFeed
  | note kind =>
    have hheading := Shows.bare (isElementName_heading 5) (shows_text kind)
    have hinner := hheading.then_lineFeed.after_lineFeed.append h
    exact (Shows.element (.inl (by decide)) (.cons_text (by decide) .nil) hinner).then_lineFeed
  | division attributes =>
    have hattributes := Attribute.shows_of_names fun a ha => (attributesIn_spec attributes a ha).1
    exact (Shows.element (.inl (by decide)) hattributes h.after_lineFeed).then_lineFeed

/-! ## Trees of blocks -/

lemma Block.exists_blocksHtml_of {bs : List Block}
    (h : ∀ b ∈ bs, ∃ xs, Renderer.standard.blockHtml b = .ok xs ∧ Shows b.written xs) :
    ∃ xs, Renderer.standard.blocksHtml bs = .ok xs ∧ Shows (Block.writtenAll bs) xs := by
  induction bs with
  | nil =>
    rw [Renderer.blocksHtml, Block.writtenAll]
    exact ⟨[], rfl, shows_nil⟩
  | cons b bs ih =>
    obtain ⟨xs, hxs, hshows⟩ := h b List.mem_cons_self
    obtain ⟨ys, hys, hshows'⟩ := ih fun d hd => h d (List.mem_cons_of_mem _ hd)
    rw [Renderer.blocksHtml, Block.writtenAll, hxs, hys]
    exact ⟨xs ++ ys, rfl, hshows.append hshows'⟩

/-- The paragraphs of a list item are rendered in their own way, but show the same texts. -/
lemma Block.exists_itemHtml_of (loose several : Bool) {bs : List Block}
    (h : ∀ b ∈ bs, ∃ xs, Renderer.standard.blockHtml b = .ok xs ∧ Shows b.written xs) :
    ∃ xs, Renderer.standard.itemHtml loose several bs = .ok xs ∧
      Shows (Block.writtenAll bs) xs := by
  induction bs with
  | nil =>
    rw [Renderer.itemHtml, Block.writtenAll]
    exact ⟨[], rfl, shows_nil⟩
  | cons b bs ih =>
    obtain ⟨xs, hxs, hshows⟩ := h b List.mem_cons_self
    obtain ⟨ys, hys, hshows'⟩ := ih fun d hd => h d (List.mem_cons_of_mem _ hd)
    by_cases htext : ∃ hd content, b = .leaf hd (.text content)
    · obtain ⟨hd, content, rfl⟩ := htext
      rw [Renderer.blockHtml] at hxs
      have hinner : Renderer.standard.inlinesHtml content = .ok xs := hxs
      rw [Renderer.itemHtml, Block.writtenAll, hys, hinner, hxs]
      cases loose with
      | true => exact ⟨paragraphHtml xs ++ ys, rfl, (paragraphHtml_shows hshows).append hshows'⟩
      | false =>
        have hend : Shows (Block.leaf hd (.text content)).written
            (xs ++ if several then [lineFeed] else []) := by
          cases several with
          | true => exact hshows.then_lineFeed
          | false => simpa using hshows
        exact ⟨_, rfl, hend.append hshows'⟩
    · rw [Renderer.itemHtml.eq_3 _ _ _ _ _ fun hd content hb => htext ⟨hd, content, hb⟩,
        Block.writtenAll, hxs, hys]
      exact ⟨xs ++ ys, rfl, hshows.append hshows'⟩

/-- Blocks without raw markup are rendered, and show their texts. -/
lemma Block.exists_blockHtml {b : Block} (hblocks : ∀ n ∈ b.nodes, n.kind ≠ .html)
    (hinlines : ∀ t ∈ b.inlineNodes, t.kind ≠ .tag) :
    ∃ xs, Renderer.standard.blockHtml b = .ok xs ∧ Shows b.written xs := by
  induction b using Block.induction with
  | leaf hd c =>
    have hc : c.kind ≠ .html := hblocks (.leaf hd c) (by simp)
    rw [Renderer.blockHtml, Block.written]
    exact Block.Leaf.exists_toHtml hc (Block.forall_inlineNodes_leaf.1 hinlines)
  | node hd f bs ih =>
    rw [Block.forall_nodes_node] at hblocks
    rw [Block.forall_inlineNodes_node] at hinlines
    have hchild (b : Block) (hb : b ∈ bs) :
        ∃ xs, Renderer.standard.blockHtml b = .ok xs ∧ Shows b.written xs :=
      ih b hb (hblocks.2 b hb) (hinlines b hb)
    obtain ⟨xs, hxs, hshows⟩ := Block.exists_blocksHtml_of hchild
    rw [Block.written]
    cases f with
    | listItem checked loose =>
      obtain ⟨ys, hys, hshows'⟩ := Block.exists_itemHtml_of loose (decide (1 < bs.length)) hchild
      refine ⟨_, ?_, Block.Frame.toHtml_shows (.listItem checked loose) false hshows'⟩
      rw [Renderer.blockHtml]
      simp only [Renderer.standard] at hys ⊢
      rw [hys]
      rfl
    | _ =>
      refine ⟨_, ?_, Block.Frame.toHtml_shows _ (startsWithCallout bs) hshows⟩
      rw [Renderer.blockHtml]
      · simp only [Renderer.standard] at hxs ⊢
        rw [hxs]
        rfl
      · -- only the items of lists have a form of their own
        rintro _ _ ⟨⟩

/-- **Rendering is well-formed.**  A tree without raw HTML, whatever strings stand in it, is
rendered to well-formed markup in which its texts stand escaped, in their order; so every `<` of the
output starts a tag of the renderer's own.  Of the attributes of a division these texts are pieces
of what the document gives. -/
theorem render_wellFormed {b : Block} (hblocks : ∀ n ∈ b.nodes, n.kind ≠ .html)
    (hinlines : ∀ t ∈ b.inlineNodes, t.kind ≠ .tag) :
    (∃ out, Renderer.standard.render b = .ok out ∧ WellFormed b.written out ∧ TagsOnly out) ∧
    ∀ h attributes bs, .node h (.division attributes) bs ∈ b.nodes →
      ∀ v ∈ (Block.Frame.division attributes).written, v <:+: attributes := by
  refine ⟨?_, ?_⟩
  · obtain ⟨xs, hxs, hshows⟩ := Block.exists_blockHtml hblocks hinlines
    refine ⟨Html.writeAll xs, ?_, hshows, WellFormed.tagsOnly hshows⟩
    rw [Renderer.render, hxs]
    rfl
  · intro h attributes bs _ v hv
    obtain ⟨a, ha, hav⟩ := List.mem_filterMap.1 hv
    exact (attributesIn_spec attributes a ha).2 v hav

/-- A division whose attributes and text try to open a tag. -/
theorem render_wellFormed_script :
    let b : Block := .node ⟨"section", ⟨{}, {}⟩⟩ (.division "title='\"><script>'".toList)
      [.leaf ⟨"paragraph", ⟨{}, {}⟩⟩
        (.paragraph [.leaf ⟨"text", ⟨{}, {}⟩⟩ (.text "</div><script>".toList)])]
    (∀ n ∈ b.nodes, n.kind ≠ .html) ∧ (∀ t ∈ b.inlineNodes, t.kind ≠ .tag) ∧
      ∃ out, Renderer.standard.render b = .ok out ∧ WellFormed b.written out ∧ TagsOnly out := by
  intro b
  have hblocks : ∀ n ∈ b.nodes, n.kind ≠ .html := by
    simp [b, Block.nodesAll, Block.kind, Block.Frame.kind, Block.Leaf.kind]
  have hinlines : ∀ t ∈ b.inlineNodes, t.kind ≠ .tag := by
    simp [b, Block.inlineNodes, Block.nodesAll, Block.inlines, Block.Leaf.inlines, Inline.kind,
      Inline.Leaf.kind]
  exact ⟨hblocks, hinlines, (render_wellFormed hblocks hinlines).1⟩

end Docmark
