import Mathlib
import Docmark.Proofs.FinalFeed.Build
import Docmark.Proofs.Html.Anchors

/-!
# A line feed at the end of a text

A text that does not end with a line feed, and the same text with one, make the same diagnostics and
the same HTML, except where raw HTML takes the line feed: what stands in a quote may be a comment or
an element that is still open where a line is nothing but the mark of the quote, and then the line
feed shows behind it, once.

## Main results

* `Block.Grows.render_gains` — what a tree that grows is written to.
* `Engine.final_feed_shows_in_open_html` — the documents of the two texts.
* `Engine.final_feed_of_quoted_comment` — a comment in a quote, where they differ.
-/

namespace Docmark

/-! ## Texts with one more line feed -/

/-- A text, and the same text with a line feed added behind one that it has, if `shown`. -/
inductive Text.Gains : Bool → Text → Text → Prop
  | same (t : Text) : Gains false t t
  | feed (before after : Text) :
    Gains true (before ++ '\n' :: after) (before ++ '\n' :: '\n' :: after)

namespace Text.Gains

variable {shown : Bool} {t t' : Text}

lemma eq (h : Text.Gains false t t') : t' = t := by
  cases h
  rfl

lemma exists_feed (h : Text.Gains true t t') :
    ∃ before after, t = before ++ '\n' :: after ∧ t' = before ++ '\n' :: '\n' :: after := by
  cases h with
  | feed before after => exact ⟨before, after, rfl, rfl⟩

lemma within (h : Text.Gains shown t t') (pre post : Text) :
    Text.Gains shown (pre ++ t ++ post) (pre ++ t' ++ post) := by
  cases h with
  | same => exact .same _
  | feed before after =>
    simpa only [List.append_assoc, List.cons_append] using
      Text.Gains.feed (pre ++ before) (after ++ post)

end Text.Gains

/-! ## HTML with one more line feed -/

/-- HTML whose written form gains a line feed, if `shown`. -/
def Html.Gains (shown : Bool) (xs xs' : List Html) : Prop :=
  Text.Gains shown (Html.writeAll xs) (Html.writeAll xs')

namespace Html.Gains

variable {shown : Bool} {xs xs' : List Html}

lemma within (h : Html.Gains shown xs xs') (pre post : List Html) :
    Html.Gains shown (pre ++ xs ++ post) (pre ++ xs' ++ post) := by
  simp only [Html.Gains, Html.writeAll_append]
  exact Text.Gains.within h _ _

lemma element (h : Html.Gains shown xs xs') (name : String) (attributes : List Attribute) :
    Html.Gains shown [.element name attributes xs] [.element name attributes xs'] := by
  simp only [Html.Gains, Html.writeAll_singleton, Html.write, List.append_assoc]
  simpa only [List.append_assoc] using Text.Gains.within h (writeTag name attributes) _

lemma then_lineFeed {x x' : Html} (h : Html.Gains shown [x] [x']) :
    Html.Gains shown [x, .lineFeed] [x', .lineFeed] :=
  h.within [] [.lineFeed]

end Html.Gains

/-- A frame around HTML that gains a line feed gains it. -/
lemma Block.Frame.toHtml_gains {shown : Bool} {xs xs' : List Html} (f : Block.Frame)
    (callout : Bool) (h : Html.Gains shown xs xs') :
    Html.Gains shown (f.toHtml callout xs) (f.toHtml callout xs') := by
  have hafter (pre : List Html) : Html.Gains shown (pre ++ xs) (pre ++ xs') := by
    simpa only [List.append_nil] using h.within pre []
  cases f with
  | document => exact h
  | included path => exact h
  | blockquote =>
    cases callout with
    | true => exact h
    | false => exact ((hafter [.lineFeed]).element _ _).then_lineFeed
  | list ordered start loose => exact ((hafter [.lineFeed]).element _ _).then_lineFeed
  | listItem checked loose => exact ((hafter (taskHtml checked)).element _ _).then_lineFeed
  | note kind => exact ((hafter _).element _ _).then_lineFeed
  | division attributes => exact ((hafter [.lineFeed]).element _ _).then_lineFeed

/-! ## Trees that grow -/

/-- Two renderings that succeed, the second with a line feed more if `shown`. -/
def RendersWith (shown : Bool) (a a' : Except Fault (List Html)) : Prop :=
  ∃ xs xs', a = .ok xs ∧ a' = .ok xs' ∧ Html.Gains shown xs xs'

section Rendering

variable {shown : Bool}

lemma RendersWith.refl {a : Except Fault (List Html)} (h : ∃ xs, a = .ok xs) :
    RendersWith false a a := by
  obtain ⟨xs, hxs⟩ := h
  exact ⟨xs, xs, hxs, hxs, .same _⟩

lemma RendersWith.map {a a' : Except Fault (List Html)} {f : List Html → List Html}
    (h : RendersWith shown a a')
    (hf : ∀ xs xs', Html.Gains shown xs xs' → Html.Gains shown (f xs) (f xs')) :
    RendersWith shown (a.map f) (a'.map f) := by
  obtain ⟨xs, xs', rfl, rfl, hgains⟩ := h
  exact ⟨f xs, f xs', rfl, rfl, hf xs xs' hgains⟩

/-- Raw HTML is written up to the end of a line, so one more line feed shows if there was one. -/
lemma Block.Leaf.Grows.renders {l l' : Block.Leaf} (h : l.Grows shown l') :
    RendersWith shown (l.toHtml Renderer.standard.inlinesHtml)
      (l'.toHtml Renderer.standard.inlinesHtml) := by
  cases h with
  | refl hshown =>
    rw [hshown]
    exact .refl l.exists_toHtml_standard
  | table hshown =>
    rw [hshown]
    exact ⟨[], [], rfl, rfl, .same _⟩
  | @html raw hlast =>
    have hfeed : Html.lineFeed.write = ['\n'] := by decide
    refine ⟨_, _, rfl, rfl, ?_⟩
    rw [List.getLast?_concat, if_pos rfl, Html.Gains, Html.writeAll_singleton]
    by_cases h : raw.getLast? = some '\n'
    · obtain rfl : shown = true := by rw [← hlast, h]; rfl
      obtain ⟨pre, rfl⟩ := List.getLast?_eq_some_iff.1 h
      rw [if_pos h, Html.writeAll_singleton]
      rw [List.append_assoc]
      exact Text.Gains.feed pre []
    · obtain rfl : shown = false := by rw [← hlast, beq_eq_false_iff_ne]; exact h
      rw [if_neg h, Html.writeAll, Html.writeAll_singleton, hfeed]
      exact .same _

/-- What two blocks render to, by themselves and in an item. -/
structure Block.RendersLike (shown : Bool) (b b' : Block) : Prop where
  kind : b'.kind = b.kind
  block : RendersWith shown (Renderer.standard.blockHtml b) (Renderer.standard.blockHtml b')
  item (loose several : Bool) : RendersWith shown (Renderer.standard.itemHtml loose several [b])
    (Renderer.standard.itemHtml loose several [b'])

/-- A sequence that is rendered block by block gains what its last block gains. -/
lemma GrowsAtEnd.renders {all : List Block → Except Fault (List Html)} (hnil : all [] = .ok [])
    (hcons : ∀ b bs, all (b :: bs) = do
      let x ← all [b]
      let xs ← all bs
      return x ++ xs)
    (htotal : ∀ b, ∃ xs, all [b] = .ok xs)
    (hnewline : ∀ b, b.kind = .newline → all [b] = .ok []) {bs bs' : List Block}
    (h : GrowsAtEnd shown (fun b b' => RendersWith shown (all [b]) (all [b'])) bs bs') :
    RendersWith shown (all bs) (all bs') := by
  have hfeeds {bs : List Block} (hbs : ∀ b ∈ bs, b.kind = .newline) : all bs = .ok [] := by
    induction bs with
    | nil => exact hnil
    | cons b bs ih =>
      obtain ⟨hb, hrest⟩ := List.forall_mem_cons.1 hbs
      rw [hcons, hnewline b hb, ih hrest]
      rfl
  induction h with
  | feeds hshown hbs hbs' =>
    subst hshown
    exact ⟨[], [], hfeeds hbs, hfeeds hbs', .same _⟩
  | last h => exact h
  | @cons b bs bs' _ ih =>
    obtain ⟨xs, hxs⟩ := htotal b
    obtain ⟨ys, ys', hys, hys', hgains⟩ := ih
    refine ⟨xs ++ ys, xs ++ ys', ?_, ?_, ?_⟩
    · rw [hcons, hxs, hys]
      rfl
    · rw [hcons, hxs, hys']
      rfl
    · simpa only [List.append_nil] using hgains.within xs []

lemma Block.exists_blockHtml_standard (b : Block) :
    ∃ xs, Renderer.standard.blockHtml b = .ok xs :=
  b.exists_blockHtml_anchorDepth.imp fun _ h => h.1

lemma Block.exists_itemHtml_standard (loose several : Bool) (b : Block) :
    ∃ xs, Renderer.standard.itemHtml loose several [b] = .ok xs :=
  (Block.exists_itemHtml_anchorDepth loose several b.exists_blockHtml_anchorDepth).imp
    fun _ h => h.1

lemma blocksHtml_singleton (b : Block) :
    Renderer.standard.blocksHtml [b] = Renderer.standard.blockHtml b := by
  obtain ⟨xs, hxs⟩ := b.exists_blockHtml_standard
  simp only [Renderer.blocksHtml, hxs]
  show Except.ok (xs ++ []) = Except.ok xs
  rw [List.append_nil]

lemma itemHtml_singleton (loose several : Bool) {b : Block}
    (htext : ∀ h content, b ≠ .leaf h (.text content)) :
    Renderer.standard.itemHtml loose several [b] = Renderer.standard.blockHtml b := by
  rw [← blocksHtml_singleton, Renderer.itemHtml.eq_3 _ _ _ _ _ htext, Renderer.itemHtml,
    Renderer.blocksHtml, Renderer.blocksHtml]

lemma blockHtml_newline {b : Block} (hb : b.kind = .newline) :
    Renderer.standard.blockHtml b = .ok [] := by
  obtain ⟨h, rfl⟩ := Block.exists_of_newline hb
  rw [Renderer.blockHtml]
  rfl

lemma GrowsAtEnd.blocksHtml {bs bs' : List Block}
    (h : GrowsAtEnd shown (Block.RendersLike shown) bs bs') :
    RendersWith shown (Renderer.standard.blocksHtml bs) (Renderer.standard.blocksHtml bs') := by
  refine GrowsAtEnd.renders (by rw [Renderer.blocksHtml]) (fun b bs => ?_) (fun b => ?_)
    (fun b hb => ?_) (h.mono fun b b' hb => ?_)
  · rw [blocksHtml_singleton, Renderer.blocksHtml]
  · rw [blocksHtml_singleton]
    exact b.exists_blockHtml_standard
  · rw [blocksHtml_singleton, blockHtml_newline hb]
  · rw [blocksHtml_singleton, blocksHtml_singleton]
    exact hb.block

lemma GrowsAtEnd.itemHtml (loose several : Bool) {bs bs' : List Block}
    (h : GrowsAtEnd shown (Block.RendersLike shown) bs bs') :
    RendersWith shown (Renderer.standard.itemHtml loose several bs)
      (Renderer.standard.itemHtml loose several bs') := by
  refine GrowsAtEnd.renders (by rw [Renderer.itemHtml])
    (Renderer.itemHtml_cons Renderer.standard loose several)
    (Block.exists_itemHtml_standard loose several) (fun b hb => ?_)
    (h.mono fun b b' hb => hb.item loose several)
  rw [itemHtml_singleton loose several, blockHtml_newline hb]
  rintro _ _ rfl
  cases hb

lemma startsWithCallout_cons (b : Block) (bs : List Block) :
    startsWithCallout (b :: bs) = if b.kind = .newline then startsWithCallout bs
      else b.kind == .note || b.kind == .division || b.kind == .video := by
  by_cases hb : b.kind = .newline <;> simp [startsWithCallout, hb]

/-- A quote whose content grows at its end starts with a callout as before. -/
lemma GrowsAtEnd.startsWithCallout {bs bs' : List Block}
    (h : GrowsAtEnd shown (Block.RendersLike shown) bs bs') :
    startsWithCallout bs' = startsWithCallout bs := by
  have hfeeds {bs : List Block} (hbs : ∀ b ∈ bs, b.kind = .newline) :
      Docmark.startsWithCallout bs = false := by
    have hnone : bs.find? (fun b => b.kind != .newline) = none := by
      simpa [List.find?_eq_none] using hbs
    rw [Docmark.startsWithCallout, hnone]
  induction h with
  | feeds _ hbs hbs' => rw [hfeeds hbs, hfeeds hbs']
  | last h => rw [startsWithCallout_cons, startsWithCallout_cons, h.kind]
  | cons b _ ih => rw [startsWithCallout_cons, startsWithCallout_cons, ih]

lemma Block.Leaf.Grows.rendersLike {h h' : Head} {l l' : Block.Leaf} (hl : l.Grows shown l') :
    (Block.leaf h l).RendersLike shown (.leaf h' l') := by
  have hblock : RendersWith shown (Renderer.standard.blockHtml (.leaf h l))
      (Renderer.standard.blockHtml (.leaf h' l')) := by
    rw [Renderer.blockHtml, Renderer.blockHtml]
    exact hl.renders
  refine ⟨hl.kind, hblock, fun loose several => ?_⟩
  by_cases htext : ∃ content, l = .text content
  · obtain ⟨content, rfl⟩ := htext
    cases hl with
    | refl hshown =>
      have hsame : Renderer.standard.itemHtml loose several [.leaf h' (.text content)] =
          Renderer.standard.itemHtml loose several [.leaf h (.text content)] := by
        rw [Renderer.itemHtml, Renderer.itemHtml]
        rfl
      rw [hsame, hshown]
      exact .refl (Block.exists_itemHtml_standard loose several _)
  · have htext' (content : List Inline) : l' ≠ .text content := by
      rintro rfl
      cases hl with
      | refl => exact htext ⟨content, rfl⟩
    rw [itemHtml_singleton loose several, itemHtml_singleton loose several]
    · exact hblock
    · rintro _ content ⟨⟩
      exact htext' content rfl
    · rintro _ content ⟨⟩
      exact htext ⟨content, rfl⟩

lemma GrowsAtEnd.rendersLike {h h' : Head} {f : Block.Frame} {bs bs' : List Block}
    (hitem : f.isItem = true → (1 < bs.length ↔ 1 < bs'.length))
    (hbs : GrowsAtEnd shown (Block.RendersLike shown) bs bs') :
    (Block.node h f bs).RendersLike shown (.node h' f bs') := by
  have hblock : RendersWith shown (Renderer.standard.blockHtml (.node h f bs))
      (Renderer.standard.blockHtml (.node h' f bs')) := by
    by_cases hf : f.isItem = true
    · obtain ⟨checked, loose, rfl⟩ := Block.Frame.exists_of_isItem hf
      have hseveral : decide (1 < bs'.length) = decide (1 < bs.length) :=
        decide_eq_decide.2 (hitem hf).symm
      rw [Renderer.blockHtml, Renderer.blockHtml]
      exact hseveral ▸ (hbs.itemHtml loose _).map fun _ _ => Block.Frame.toHtml_gains _ _
    · have hframe (checked : Option Bool) (loose : Bool) : f ≠ .listItem checked loose := by
        rintro rfl
        exact hf rfl
      rw [Renderer.blockHtml, Renderer.blockHtml]
      · exact hbs.startsWithCallout ▸ hbs.blocksHtml.map fun _ _ => f.toHtml_gains _
      · exact hframe
      · exact hframe
  refine ⟨rfl, hblock, fun loose several => ?_⟩
  rw [itemHtml_singleton loose several, itemHtml_singleton loose several]
  · exact hblock
  · rintro _ _ ⟨⟩
  · rintro _ _ ⟨⟩

lemma Block.Grows.rendersLike {b b' : Block} (h : b.Grows shown b') : b.RendersLike shown b' :=
  Block.Grows.induction (fun _ hl => hl.rendersLike) (fun _ hitem hbs => hbs.rendersLike hitem) h

/-- **A tree that grows is written with a line feed more.**  Both trees are rendered, to the same
text unless the line feed shows, and then to one that has a second line feed behind one. -/
theorem Block.Grows.render_gains {b b' : Block} (h : b.Grows shown b') :
    ∃ t t', Renderer.standard.render b = .ok t ∧ Renderer.standard.render b' = .ok t' ∧
      Text.Gains shown t t' := by
  obtain ⟨xs, xs', hxs, hxs', hgains⟩ := h.rendersLike.block
  refine ⟨Html.writeAll xs, Html.writeAll xs', ?_, ?_, hgains⟩
  · rw [Renderer.render, hxs]
    rfl
  · rw [Renderer.render, hxs']
    rfl

end Rendering

/-! ## Documents -/

namespace Engine

variable {e : Engine}

lemma markup_of_process {source : Source} {root : Block} {journal : Journal} {html : Text}
    (hprocess : e.process (source.path.map e.canonicalPath).toList Scope.document source.path
      source.content {} = (.ok root, journal))
    (hrender : e.renderer.render root = .ok html) :
    e.markup source = .ok ⟨source.path, html, journal.diagnostics⟩ := by
  simp only [markup, parse, hprocess, bind, Except.bind, render, hrender]
  rfl

/-- **A line feed at the end shows in open HTML only.**  Whatever the dialect, the files and the
rules on tags, a text without a line feed at its end and the same text with one are both made to
documents, with the same diagnostics.  They have the same HTML, unless the last block of the text is
raw HTML that ends with a line feed, goes on with one more, and stands in a container that ends
within a line; then there is one more line feed behind one of the first HTML. -/
theorem final_feed_shows_in_open_html (e : Engine) (hrenderer : e.renderer = .standard)
    (flavor : Flavor) (rules : List TagRule) (path : Option Path) {text : Text}
    (hlast : text.getLast? ≠ some '\n') :
    let e' := (e.ofFlavor flavor).checking rules
    ∃ source r r', e'.tokenize text = .ok source ∧ e'.markup ⟨path, text⟩ = .ok r ∧
      e'.markup ⟨path, text ++ ['\n']⟩ = .ok r' ∧ r'.path = r.path ∧
      r'.diagnostics = r.diagnostics ∧
      (source.endsOpen true = false → r'.html = r.html) ∧
      (source.endsOpen true = true → ∃ before after,
        r.html = before ++ '\n' :: after ∧ r'.html = before ++ '\n' :: '\n' :: after) := by
  intro e'
  have he : e'.IsChecking rules := ofFlavor_isChecking e flavor rules
  obtain ⟨source, hsource⟩ := exists_readWith he.plain.rules he.plain.text [] Scope.document text
  have hfollows : Follows (Block.Grows (source.endsOpen true)) _ _ := process_follows he
    flavor.rules_skipsBlank (path.map e'.canonicalPath).toList path hlast hsource
  obtain ⟨root, hroot, -⟩ := process_succeeds he.plain le_rfl Scope.document path text {}
  obtain ⟨root', hrun', hgrows⟩ := hfollows {} root _ (Prod.ext hroot rfl)
  obtain ⟨html, html', hhtml, hhtml', hgains⟩ := hgrows.render_gains
  have hstandard : e'.renderer = .standard := hrenderer
  rw [← hstandard] at hhtml hhtml'
  have hmarkup := @markup_of_process e' ⟨path, text⟩ _ _ _ (Prod.ext hroot rfl) hhtml
  have hmarkup' := @markup_of_process e' ⟨path, text ++ ['\n']⟩ _ _ _ hrun' hhtml'
  refine ⟨source, _, _, hsource, hmarkup, hmarkup', rfl, rfl, fun hclosed => ?_, fun hopen => ?_⟩
  · rw [hclosed] at hgains
    exact hgains.eq
  · rw [hopen] at hgains
    exact hgains.exists_feed

/-- A list, where a line feed at the end makes no difference, and a comment in a quote, where it
shows. -/
theorem final_feed_shows_in_open_html_dfm :
    let e := (({} : Engine).ofFlavor .dfm).checking []
    (∃ r r', e.markup ⟨none, "- a\n  - b".toList⟩ = .ok r ∧
      e.markup ⟨none, "- a\n  - b\n".toList⟩ = .ok r' ∧ r'.diagnostics = r.diagnostics ∧
      r'.html = r.html) ∧
    ∃ r r', e.markup ⟨none, "> <!--\n>".toList⟩ = .ok r ∧
      e.markup ⟨none, "> <!--\n>\n".toList⟩ = .ok r' ∧ r'.diagnostics = r.diagnostics ∧
      ∃ before after, r.html = before ++ '\n' :: after ∧
        r'.html = before ++ '\n' :: '\n' :: after := by
  intro e
  have hends {text : Text} {source : Block} {shown : Bool} (hsource : e.tokenize text = .ok source)
      (h : (e.tokenize text).map (Block.endsOpen true) = .ok shown) :
      source.endsOpen true = shown := by
    rw [hsource] at h
    exact Except.ok.inj h
  constructor
  · obtain ⟨source, r, r', hsource, hr, hr', -, hdiagnostics, hsame, -⟩ :=
      final_feed_shows_in_open_html {} rfl .dfm [] none
        (show "- a\n  - b".toList.getLast? ≠ some '\n' by decide)
    exact ⟨r, r', hr, hr', hdiagnostics, hsame (hends hsource (by decide +kernel))⟩
  · obtain ⟨source, r, r', hsource, hr, hr', -, hdiagnostics, -, hshown⟩ :=
      final_feed_shows_in_open_html {} rfl .dfm [] none
        (show "> <!--\n>".toList.getLast? ≠ some '\n' by decide)
    exact ⟨r, r', hr, hr', hdiagnostics, hshown (hends hsource (by decide +kernel))⟩

/-- **A comment may take the line feed of a bare mark.**  The bare mark at the end stands for an
empty line of the quote, and the comment in front of it, which is still open, takes that line with
its line feed if it has one; so the line feed at the end shows in the HTML. -/
theorem final_feed_of_quoted_comment :
    (({} : Engine).ofFlavor .dfm).markup ⟨none, "> <!--\n>".toList⟩ =
        .ok ⟨none, "<blockquote>\n<!--\n</blockquote>\n".toList, []⟩ ∧
      (({} : Engine).ofFlavor .dfm).markup ⟨none, "> <!--\n>\n".toList⟩ =
        .ok ⟨none, "<blockquote>\n<!--\n\n</blockquote>\n".toList, []⟩ := by
  simp only [markup, parse, process_eq]
  decide +kernel

end Engine

end Docmark
