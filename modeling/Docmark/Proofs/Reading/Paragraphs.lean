import Mathlib
import Docmark.Proofs.Extent.Pending
import Docmark.Proofs.Html.LineEnds
import Docmark.Proofs.Reading.Callouts
import Docmark.Proofs.Reading.Choice

/-!
# Paragraphs and the texts of items

A paragraph is read as a text in the items of lists and as a paragraph everywhere else.  Which of
the two is a matter of a setting that an item makes and that everything nested in it inherits.  So
it is one for the whole content of an item, down to the blocks of a quote in it; but it is the item
alone, not the quote, whose output sets texts off from each other.

## Main results

* `texts_stand_in_items` — a text stands in an item, or in a quote inside one, and a paragraph
  stands in no item; where no quote is in an item, no two blocks of the output run together.
* `texts_run_together` — two paragraphs of a quote in an item.
-/

namespace Docmark

/-! ## The choice between the two -/

/-- Whatever else a dialect tries, it tries paragraphs and then texts at last. -/
lemma Flavor.rules_paragraph (f : Flavor) : ∃ front : List BlockConstruct,
    f.rules.block = (front ++ [BlockConstruct.paragraph, .text]).map .standard ∧ .text ∉ front := by
  cases f with
  | markdown =>
    exact ⟨[.newline, .indentedCode, .fences, .heading "heading" .relaxed none, .underlinedHeading,
      .thematicBreak, .blockquote, .list, .html, .definition], rfl, by decide⟩
  | gfm =>
    exact ⟨[.newline, .indentedCode, .fences, .heading "heading" .strict none, .underlinedHeading,
      .thematicBreak, .blockquote, .list, .html, .definition, .table], rfl, by decide⟩
  | dfm =>
    exact ⟨[.newline, .indentedCode, .fences, .directive, .heading "heading" .strict none,
      .underlinedHeading, .thematicBreak, .note, .division, .video, .blockquote, .list, .html,
      .definition, .table], rfl, by decide⟩

/-- Texts are tried where paragraphs have declined. -/
lemma Flavor.paragraph_before_text {f : Flavor} {before after : List BlockRule}
    (h : f.rules.block = before ++ .standard .text :: after) : .standard .paragraph ∈ before := by
  obtain ⟨front, hrules, htext⟩ := f.rules_paragraph
  rw [hrules, List.map_append, List.append_eq_append_iff] at h
  have hfront : .standard .text ∉ front.map BlockRule.standard := by
    intro hmem
    obtain ⟨c, hc, heq⟩ := List.mem_map.1 hmem
    cases heq
    exact htext hc
  rcases h with ⟨skipped, hbefore, hlast⟩ | ⟨skipped, hbefore, hlast⟩
  · cases skipped with
    | nil => cases hlast
    | cons r skipped =>
      have hr : .standard .paragraph = r := (List.cons.inj hlast).1
      rw [hbefore, hr]
      exact List.mem_append_right _ List.mem_cons_self
  · cases skipped with
    | nil => cases hlast
    | cons r skipped =>
      have hr : .standard .text = r := (List.cons.inj hlast).1
      rw [hbefore, hr] at hfront
      exact absurd (List.mem_append_right _ List.mem_cons_self) hfront

lemma paragraph?_eq_none {scope : Scope} {cur : Cursor} (h : paragraph? scope cur = none)
    (hscope : scope.has Scope.isInList = false) :
    (paragraphLines false (lines cur.rest)).all isBlank = true := by
  simp only [paragraph?, hscope, Bool.false_eq_true, false_or] at h
  by_contra hblank
  rw [if_neg hblank] at h
  cases h

/-! ## Places -/

/-- Frames inside which a text may stand, the outermost first: an item, and behind it nothing more
or a quote.  `inList` tells whether all of them are in an item already. -/
def MayHoldText (inList : Bool) (above : List Block.Frame) : Prop :=
  (∃ outer item inner, above = outer ++ item :: inner ∧ item.isItem = true ∧
    (inner = [] ∨ inner.head? = some .blockquote)) ∨
  (inList = true ∧ (above = [] ∨ above.head? = some .blockquote))

section Places

variable {inList : Bool} {above : List Block.Frame}

/-- More frames further out keep the place, unless the item is further out still. -/
lemma MayHoldText.append_left (outer : List Block.Frame) (h : MayHoldText false above) :
    MayHoldText inList (outer ++ above) := by
  rcases h with ⟨outer', item, inner, rfl, hitem, hinner⟩ | ⟨hfalse, -⟩
  · exact .inl ⟨outer ++ outer', item, inner, by rw [List.append_assoc], hitem, hinner⟩
  · cases hfalse

lemma MayHoldText.in_blockquote (between : List Block.Frame) (h : MayHoldText inList above) :
    MayHoldText inList (.blockquote :: (between ++ above)) := by
  cases inList with
  | false => exact h.append_left (.blockquote :: between)
  | true => exact .inr ⟨rfl, .inr rfl⟩

lemma MayHoldText.in_list {list item : Block.Frame} (hitem : item.isItem = true)
    (h : MayHoldText true above) : MayHoldText inList (list :: item :: above) := by
  rcases h with ⟨outer, item', inner, rfl, hitem', hinner⟩ | ⟨-, hinner⟩
  · exact .inl ⟨list :: item :: outer, item', inner, rfl, hitem', hinner⟩
  · exact .inl ⟨[list], item, above, rfl, hitem, hinner⟩

end Places

/-- The pending paragraphs and texts in a block stand where they may, texts without content
aside. -/
structure Block.PlacesParagraphs (scope : Scope) (b : Block) : Prop where
  text : ∀ above hd p, b.HasInside above (.leaf hd (.pending p)) → p.form = .text →
    p.source ≠ [] → MayHoldText (scope.has Scope.isInList) above
  paragraph : ∀ above hd p, b.HasInside above (.leaf hd (.pending p)) → p.form = .paragraph →
    scope.has Scope.isInList = false ∧ ∀ f ∈ above, f.isItem = false

/-! ## The first pass -/

section FirstPass

variable {scope : Scope} {cur : Cursor} {head : Head}

/-- A leaf that is neither a paragraph nor a text has none in it. -/
lemma placesParagraphs_leaf {l : Block.Leaf}
    (hl : ∀ p, l = .pending p → p.form ≠ .text ∧ p.form ≠ .paragraph) :
    (Block.ofBody head (.leaf l)).PlacesParagraphs scope where
  text := by
    intro above hd p hn hform
    obtain ⟨-, hleaf⟩ := Block.hasInside_leaf.1 hn
    cases hleaf
    exact absurd hform (hl p rfl).1
  paragraph := by
    intro above hd p hn hform
    obtain ⟨-, hleaf⟩ := Block.hasInside_leaf.1 hn
    cases hleaf
    exact absurd hform (hl p rfl).2

/-- A marker that was just read has nothing in it. -/
lemma placesParagraphs_marker {h : Head} {f : Block.Frame} :
    (Block.node h f []).PlacesParagraphs scope where
  text := by
    intro above hd p hn
    rcases Block.hasInside_node.1 hn with ⟨-, hleaf⟩ | ⟨d, hd, -⟩
    · cases hleaf
    · cases hd
  paragraph := by
    intro above hd p hn
    rcases Block.hasInside_node.1 hn with ⟨-, hleaf⟩ | ⟨d, hd, -⟩
    · cases hleaf
    · cases hd

lemma placesParagraphs_blockquote {read : BlockReader}
    (hread : ∀ scope text origin bs, read scope text origin = .ok bs →
      ∀ b ∈ bs, b.PlacesParagraphs scope)
    {m : Found Block.Body} (h : blockquote? read scope cur = .ok (some m)) :
    (Block.ofBody head m.value).PlacesParagraphs scope := by
  obtain ⟨-, bs, hbs, rfl⟩ := exists_of_blockquote? h
  have hlist : (scope.nested Scope.isBlockQuote).has Scope.isInList = scope.has Scope.isInList :=
    scope.has_nested_of_ne (by decide) (by decide)
  constructor
  · intro above hd p hn hform hsource
    rcases Block.hasInside_node.1 hn with ⟨-, hleaf⟩ | ⟨g, hg, inGroup, rfl, hgroup⟩
    · cases hleaf
    · obtain ⟨b, hb, between, inner, rfl, -, hinside⟩ :=
        exists_inside_of_mem_groupCallouts hg hgroup
      have hmay := (hread _ _ _ _ hbs b hb).text inner hd p hinside hform hsource
      rw [hlist] at hmay
      exact hmay.in_blockquote between
  · intro above hd p hn hform
    rcases Block.hasInside_node.1 hn with ⟨-, hleaf⟩ | ⟨g, hg, inGroup, rfl, hgroup⟩
    · cases hleaf
    · obtain ⟨b, hb, between, inner, rfl, hbetween, hinside⟩ :=
        exists_inside_of_mem_groupCallouts hg hgroup
      obtain ⟨hnot, hitem⟩ := (hread _ _ _ _ hbs b hb).paragraph inner hd p hinside hform
      rw [hlist] at hnot
      refine ⟨hnot, List.forall_mem_cons.2 ⟨rfl, fun f hf => ?_⟩⟩
      rcases List.mem_append.1 hf with hf | hf
      · exact Block.Frame.isItem_of_gathers (hbetween f hf)
      · exact hitem f hf

lemma placesParagraphs_list {read : BlockReader}
    (hread : ∀ scope text origin bs, read scope text origin = .ok bs →
      ∀ b ∈ bs, b.PlacesParagraphs scope)
    {m : Found Block.Body} (h : list? read scope cur = .ok (some m)) :
    (Block.ofBody head m.value).PlacesParagraphs scope := by
  obtain ⟨ordered, start, loose, items, hvalue, hitems⟩ := list?_value h
  -- what stands in the list is a leaf in one of its items
  have hinside {above : List Block.Frame} {hd : Head} {c : Block.Leaf}
      (hn : (Block.ofBody head m.value).HasInside above (.leaf hd c)) :
      ∃ checked inner, ∃ b : Block, b.PlacesParagraphs (scope.nested Scope.isInList) ∧
        above = .list ordered start loose :: .listItem checked loose :: inner ∧
          b.HasInside inner (.leaf hd c) := by
    rw [hvalue] at hn
    rcases Block.hasInside_node.1 hn with ⟨-, hleaf⟩ | ⟨i, hi, inItem, rfl, hitem⟩
    · cases hleaf
    · obtain ⟨itemHead, checked, text, origin, bs, hbs, rfl⟩ := hitems i hi
      rcases Block.hasInside_node.1 hitem with ⟨-, hleaf⟩ | ⟨b, hb, inner, rfl, hinside⟩
      · cases hleaf
      · exact ⟨checked, inner, b, hread _ _ _ _ hbs b hb, rfl, hinside⟩
  have hlist : (scope.nested Scope.isInList).has Scope.isInList = true :=
    scope.has_nested_self Scope.isInList
  constructor
  · intro above hd p hn hform hsource
    obtain ⟨checked, inner, b, hb, rfl, hinner⟩ := hinside hn
    have hmay := hb.text inner hd p hinner hform hsource
    rw [hlist] at hmay
    exact hmay.in_list rfl
  · intro above hd p hn hform
    obtain ⟨checked, inner, b, hb, rfl, hinner⟩ := hinside hn
    obtain ⟨hnot, -⟩ := hb.paragraph inner hd p hinner hform
    rw [hlist] at hnot
    cases hnot

/-- A paragraph is read outside of items only. -/
lemma placesParagraphs_paragraph {x : Found Block.Leaf} (h : paragraph? scope cur = some x) :
    (Block.ofBody head (.leaf x.value)).PlacesParagraphs scope := by
  obtain ⟨hlist, -, rfl⟩ := paragraph?_eq_some h
  constructor
  · intro above hd p hn hform
    obtain ⟨-, hleaf⟩ := Block.hasInside_leaf.1 hn
    cases hleaf
    cases hform
  · intro above hd p hn _
    obtain ⟨rfl, -⟩ := Block.hasInside_leaf.1 hn
    exact ⟨hlist, by simp⟩

/-- A text with content is read in items only, where paragraphs are tried before texts. -/
lemma placesParagraphs_text (h : paragraph? scope cur = none) :
    (Block.ofBody head (.leaf (anyText scope cur).value)).PlacesParagraphs scope := by
  constructor
  · intro above hd p hn _ hsource
    obtain ⟨rfl, hleaf⟩ := Block.hasInside_leaf.1 hn
    by_cases hlist : scope.has Scope.isInList = true
    · exact .inr ⟨hlist, .inl rfl⟩
    · have hlist : scope.has Scope.isInList = false := by simpa using hlist
      have hblank := paragraph?_eq_none h hlist
      simp only [anyText, paragraphBlock, hlist] at hleaf
      cases hleaf
      exact absurd (joinParagraph_of_blank hblank) hsource
  · intro above hd p hn hform
    obtain ⟨-, hleaf⟩ := Block.hasInside_leaf.1 hn
    cases hleaf
    cases hform

lemma BlockConstruct.recognize_placesParagraphs {f : Flavor} {nest : Option BlockReader}
    (hnest : ∀ read, nest = some read → ∀ scope text origin bs,
      read scope text origin = .ok bs → ∀ b ∈ bs, b.PlacesParagraphs scope)
    {c : BlockConstruct} {m : Found Block.Body} (h : f.rules.Picks nest scope cur c m) :
    (Block.ofBody head m.value).PlacesParagraphs scope := by
  have hrec : c.recognize nest scope cur = .ok (some m) := h.1
  have hkind : (Block.ofBody head m.value).kind = c.made := recognize_kind hrec
  -- most leaves have no inline content to wait for
  have hleaf (hvalue : ∃ l, m.value = .leaf l) (hmade : c.made ≠ .pending) :
      (Block.ofBody head m.value).PlacesParagraphs scope := by
    obtain ⟨l, hl⟩ := hvalue
    rw [hl] at hkind ⊢
    refine placesParagraphs_leaf fun p hp => absurd hkind.symm ?_
    rw [hp]
    exact hmade
  have hpending {found : Option (Found Block.Leaf)}
      (hform : ∀ x, found = some x → ∀ p, x.value = .pending p →
        p.form ≠ .text ∧ p.form ≠ .paragraph)
      (hok : (.ok (found.map (·.map .leaf)) : Except Fault (Option (Found Block.Body))) =
        .ok (some m)) : (Block.ofBody head m.value).PlacesParagraphs scope := by
    obtain ⟨x, hx, rfl⟩ := Option.map_eq_some_iff.1 (Except.ok.inj hok)
    exact placesParagraphs_leaf (hform x hx)
  cases c with
  | heading name style level =>
    refine hpending (fun x hx p hp => ?_) hrec
    obtain ⟨hd, -, rfl⟩ := exists_of_heading? hx
    cases hp
    simp
  | underlinedHeading =>
    refine hpending (fun x hx p hp => ?_) hrec
    obtain ⟨c, below, depth, -, -, rfl⟩ := exists_of_underlinedHeading? hx
    cases hp
    simp
  | table =>
    refine hpending (fun x hx p hp => ?_) hrec
    obtain ⟨header, dashed, body, -, -, rfl⟩ := exists_of_table? hx
    cases hp
    simp
  | paragraph =>
    obtain ⟨x, hx, rfl⟩ := Option.map_eq_some_iff.1 (Except.ok.inj hrec)
    exact placesParagraphs_paragraph hx
  | text =>
    have hdeclined := h.declined (d := .paragraph) fun _ _ => Flavor.paragraph_before_text
    have hnone : paragraph? scope cur = none :=
      Option.map_eq_none_iff.1 (Except.ok.inj hdeclined)
    cases hrec
    exact placesParagraphs_text hnone
  | blockquote =>
    cases nest with
    | none => cases hrec
    | some read => exact placesParagraphs_blockquote (hnest read rfl) hrec
  | list =>
    cases nest with
    | none => cases hrec
    | some read => exact placesParagraphs_list (hnest read rfl) hrec
  | note =>
    obtain ⟨kind, -, hvalue⟩ := note?_value (Except.ok.inj hrec)
    rw [hvalue]
    exact placesParagraphs_marker
  | division =>
    obtain ⟨attributes, hvalue⟩ := division?_value (Except.ok.inj hrec)
    rw [hvalue]
    exact placesParagraphs_marker
  | video =>
    obtain ⟨url, hvalue⟩ := video?_value (Except.ok.inj hrec)
    exact hleaf ⟨_, hvalue⟩ (by decide)
  | _ => exact hleaf (exists_leaf_of_ok_map hrec) (by decide)

end FirstPass

/-- The paragraphs and texts of the first pass, at every level. -/
lemma scanBlocks_placesParagraphs (f : Flavor) (scope : Scope) (text : Text) (origin : Point) :
    ∀ b ∈ (scanBlocks f.rules scope text origin).tokens, b.PlacesParagraphs scope :=
  scanBlocks_picks (P := fun scope _ b => b.PlacesParagraphs scope) f.rules_isStandard
    (fun _ _ _ _ hb => hb)
    (fun _ hnest _ _ _ _ h => BlockConstruct.recognize_placesParagraphs hnest h) scope text origin

/-! ## Documents -/

/-- Nothing is read from the empty text. -/
lemma readInlines_nil (rules : RuleSet) (defs : Definitions) (scope : Scope) (origin : Point) :
    readInlines rules defs scope [] origin = .ok [] := by
  have hrun (nest : Option InlineReader) : runInlines rules defs nest scope [] origin = .ok [] := by
    rw [runInlines, readAll, dif_pos (show (Cursor.ofText [] origin).rest = [] from rfl)]
    rfl
  rw [readInlines]
  cases scope.budget with
  | zero => exact hrun none
  | succ n => exact hrun _

/-- A document without a quote inside an item. -/
def Block.QuotesStandOutside (root : Block) : Prop :=
  ∀ above n, root.HasInside above n → n.kind = .blockquote → ∀ f ∈ above, f.isItem = false

/-- What a pending text became has content only if its source has. -/
lemma Pending.exists_of_complete_text {rules : RuleSet} {defs : Definitions} {rule : String}
    {p : Pending} {content : List Inline}
    (h : p.complete (readInlines rules defs) rule = .ok (.text content)) :
    p.form = .text ∧ (content ≠ [] → p.source ≠ []) := by
  obtain ⟨form, source, origin, scope⟩ := p
  cases Pending.becomes_of_complete h with
  | text hts =>
    refine ⟨rfl, fun hne hsource => hne ?_⟩
    rw [show source = [] from hsource, readInlines_nil] at hts
    exact (Except.ok.inj hts).symm

lemma Pending.form_of_complete_paragraph {read : InlineReader} {rule : String} {p : Pending}
    {content : List Inline} (h : p.complete read rule = .ok (.paragraph content)) :
    p.form = .paragraph := by
  obtain ⟨form, source, origin, scope⟩ := p
  cases Pending.becomes_of_complete h with
  | paragraph => rfl

instance (root : Block) : Decidable root.QuotesStandOutside :=
  inferInstanceAs (Decidable (∀ above n, root.HasInside above n → n.kind = .blockquote →
    ∀ f ∈ above, f.isItem = false))

section Documents

variable {f : Flavor} {defs : Definitions} {scope : Scope} {text : Text} {root : Block}

/-- What a paragraph or text of a document was before it was completed. -/
lemma exists_pending_of_inside (h : (readWith f.rules defs scope text).1 = .ok root)
    {above : List Block.Frame} {hd : Head} {c : Block.Leaf}
    (hc : c.kind = .text ∨ c.kind = .paragraph) (hn : root.HasInside above (.leaf hd c)) :
    ∃ b : Block, b.PlacesParagraphs scope ∧ ∃ inner p, above = .document :: inner ∧
      b.HasInside inner (.leaf hd (.pending p)) ∧
        ∃ defs, p.complete (readInlines f.rules defs) hd.rule = .ok c := by
  obtain ⟨bs, hbs, hres⟩ := exists_of_readWith h
  obtain ⟨n, hn, hres⟩ := hn.of_resolve hres
  rcases Block.hasInside_node.1 hn with ⟨-, rfl⟩ | ⟨b, hb, inner, rfl, hinside⟩
  · obtain ⟨p, hleaf, -⟩ | ⟨hleaf, -⟩ := Block.exists_of_resolve_leaf hres <;> cases hleaf
  · rw [← hbs] at hb
    obtain ⟨p, rfl, hcomplete⟩ | ⟨rfl, -⟩ := Block.exists_of_resolve_leaf hres
    · exact ⟨b, scanBlocks_placesParagraphs f scope text Point.start b hb, inner, p, rfl, hinside,
        _, hcomplete⟩
    · have hleaf : c.IsScanned := scanBlocks_isScanned f.rules_isStandard scope text Point.start b
        hb _ (Block.mem_nodes_iff.2 ⟨inner, hinside⟩)
      cases c with
      | text => simp [Block.Leaf.IsScanned, Block.Leaf.kind] at hleaf
      | paragraph => simp [Block.Leaf.IsScanned, Block.Leaf.kind] at hleaf
      | _ => simp [Block.Leaf.kind] at hc

/-- A text with content stands in an item, and behind the item there is nothing but a quote. -/
lemma text_in_item (hscope : scope.has Scope.isInList = false)
    (h : (readWith f.rules defs scope text).1 = .ok root) {above : List Block.Frame} {hd : Head}
    {content : List Inline} (hn : root.HasInside above (.leaf hd (.text content)))
    (hne : content ≠ []) :
    ∃ outer item inner, above = outer ++ item :: inner ∧ item.isItem = true ∧
      (inner = [] ∨ inner.head? = some .blockquote) := by
  obtain ⟨b, hb, inner, p, rfl, hinside, defs, hcomplete⟩ :=
    exists_pending_of_inside h (.inl rfl) hn
  obtain ⟨hform, hsource⟩ := Pending.exists_of_complete_text hcomplete
  have hmay := hb.text inner hd p hinside hform (hsource hne)
  rw [hscope] at hmay
  have hmay : MayHoldText false (.document :: inner) := hmay.append_left [.document]
  exact hmay.resolve_right fun hfalse => Bool.false_ne_true hfalse.1

/-- **Texts stand in items.**  Let a document be read, in any dialect, outside of any list.  Each
text with content stands in an item, directly or in a quote inside the item, and no paragraph stands
in an item.  So where no quote is inside an item, each text with content is directly in one; then
each block outside of items ends its line in the output, and so does each block of an item with
several, however it is set off there. -/
theorem texts_stand_in_items (hscope : scope.has Scope.isInList = false)
    (h : (readWith f.rules defs scope text).1 = .ok root) :
    (∀ above hd content, root.HasInside above (.leaf hd (.text content)) → content ≠ [] →
      ∃ outer item inner, above = outer ++ item :: inner ∧ item.isItem = true ∧
        (inner = [] ∨ inner.head? = some .blockquote)) ∧
    (∀ above hd content, root.HasInside above (.leaf hd (.paragraph content)) →
      ∀ frame ∈ above, frame.isItem = false) ∧
    (root.QuotesStandOutside →
      (∀ above hd content, root.HasInside above (.leaf hd (.text content)) → content ≠ [] →
        above.getLast?.any (·.isItem) = true) ∧
      (∀ hd frame bs, .node hd frame bs ∈ root.nodes → frame.isItem = false → ∀ b ∈ bs,
        ∃ html, Renderer.standard.blockHtml b = .ok html ∧ Html.EndsLine html) ∧
      ∀ hd checked loose bs, .node hd (.listItem checked loose) bs ∈ root.nodes →
        1 < bs.length → ∀ b ∈ bs,
          ∃ html, Renderer.standard.itemHtml loose true [b] = .ok html ∧ Html.EndsLine html) := by
  refine ⟨fun above hd content hn hne => text_in_item hscope h hn hne, ?_, fun hquotes => ?_⟩
  · intro above hd content hn
    obtain ⟨b, hb, inner, p, rfl, hinside, defs, hcomplete⟩ :=
      exists_pending_of_inside h (.inr rfl) hn
    obtain ⟨-, hitem⟩ :=
      hb.paragraph inner hd p hinside (Pending.form_of_complete_paragraph hcomplete)
    exact List.forall_mem_cons.2 ⟨rfl, hitem⟩
  · have hset : root.SetsOffTexts := by
      intro above hd content hn hne
      obtain ⟨outer, item, inner, rfl, hitem, rfl | hquote⟩ := text_in_item hscope h hn hne
      · simpa using hitem
      · obtain ⟨inner, rfl⟩ := List.head?_eq_some_iff.1 hquote
        rw [List.append_cons] at hn
        obtain ⟨hd', bs, hframe, -⟩ := hn.exists_frame
        have houtside := hquotes _ _ hframe rfl item (by simp)
        rw [hitem] at houtside
        cases houtside
    refine ⟨hset, ?_, ?_⟩
    · intro hd frame bs hn hframe b hb
      obtain ⟨above, hn⟩ := Block.mem_nodes_iff.1 hn
      refine Block.exists_blockHtml_endsLine ((hset.inside hn).child hb fun hitem => ?_)
      rw [hframe] at hitem
      cases hitem
    · intro hd checked loose bs hn _ b hb
      obtain ⟨above, hn⟩ := Block.mem_nodes_iff.1 hn
      obtain ⟨html, hhtml, hends⟩ := Block.exists_itemHtml_endsLine loose true fun htext =>
        Block.exists_blockHtml_endsLine ((hset.inside hn).child hb fun _ hd' content heq =>
          absurd heq (htext hd' content))
      exact ⟨html, hhtml, hends rfl⟩

end Documents

/-- An item with two paragraphs and a list in it, and a quote behind. -/
theorem texts_stand_in_items_gfm :
    Scope.document.has Scope.isInList = false ∧ ∃ root,
      (readWith Flavor.gfm.rules [] Scope.document "- a\n\n  b\n  1. c\n\n> d\n".toList).1 =
        .ok root ∧
      root.QuotesStandOutside ∧
      ∀ above hd content, root.HasInside above (.leaf hd (.text content)) → content ≠ [] →
        above.getLast?.any (·.isItem) = true := by
  have hscope : Scope.document.has Scope.isInList = false := by decide
  obtain ⟨root, hroot, hquotes⟩ : ∃ root, (readWith Flavor.gfm.rules [] Scope.document
      "- a\n\n  b\n  1. c\n\n> d\n".toList).1 = .ok root ∧ root.QuotesStandOutside := by
    decide +kernel
  have hstand := texts_stand_in_items hscope hroot
  exact ⟨hscope, root, hroot, hquotes, (hstand.2.2 hquotes).1⟩

/-- **Two paragraphs run together.**  A quote in an item holds its two paragraphs as texts, and they
are written without anything between them. -/
theorem texts_run_together :
    ∃ root, (readWith Flavor.markdown.rules [] Scope.document "- > a\n  >\n  > b\n".toList).1 =
        .ok root ∧
      (∃ above n, root.HasInside above n ∧ n.kind = .blockquote ∧
        n.children.map Block.kind = [.text, .text]) ∧
      (Renderer.standard.render root).toOption =
        some "<ul>\n<li><blockquote>\nab</blockquote>\n</li>\n</ul>\n".toList := by
  decide +kernel

end Docmark
