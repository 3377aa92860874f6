import Mathlib
import Docmark.Proofs.Html.Anchors
import Docmark.Proofs.Reading.Callouts

/-!
# Links in links

The text of a link is read in a scope that says so, and the scope keeps saying so through whatever
emphasis stands in between.  The three constructs that make links and the one that takes bare
addresses look at it and decline.  The construct that takes addresses in angle brackets does not, so
such an address may become an anchor inside the anchor of a link, and nothing else can.

## Main results

* `links_hold_no_links` — in a link there is no link and no bare address, at any depth, so anchors
  are nested two deep at most.
* `address_in_link` — an address in angle brackets that is an anchor inside the anchor of a link.
-/

namespace Docmark

/-! ## The scope inside a link -/

namespace Scope

@[simp] lemma has_isInLink_toInline (s : Scope) : s.toInline.has isInLink = s.has isInLink := by
  have hget : s.toInline.get? isInLink = s.get? isInLink :=
    Settings.lookup_insert_of_ne (by decide) _ _
  rw [has, hget, has]

@[simp] lemma has_isInLink_descend (s : Scope) : s.descend.has isInLink = s.has isInLink := rfl

@[simp] lemma has_isInLink_insideLink (s : Scope) : s.insideLink.has isInLink = true := by
  have hget : s.insideLink.get? isInLink = some (.flag true) := Settings.lookup_insert_self _ _ _
  rw [has, hget]
  decide

end Scope

/-! ## What a link may hold -/

/-- A token that may stand inside a link: no link, and no address but one in angle brackets. -/
def Inline.StandsInLink (t : Inline) : Prop :=
  t.kind ≠ .link ∧ (t.kind = .autoLink → t.head.rule = InlineConstruct.autoLink.name)

/-- A token that holds only what may stand inside a link, if it is a link itself. -/
def Inline.KeepsApart (t : Inline) : Prop :=
  t.kind = .link → ∀ u ∈ Inline.nodesAll t.children, u.StandsInLink

/-- What the rules give each token of a tree: every link in it keeps links apart, and inside a link
there is nothing but what may stand there. -/
structure Inline.IsApart (scope : Scope) (t : Inline) : Prop where
  apart : ∀ n ∈ t.nodes, n.KeepsApart
  inside : scope.has Scope.isInLink = true → ∀ n ∈ t.nodes, n.StandsInLink

section Constructs

variable {nest : Option InlineReader} {scope : Scope} {cur : Cursor} {m : Found Inline.Body}
  {head : Head}

lemma isApart_leaf {c : Inline.Leaf}
    (hc : scope.has Scope.isInLink = true → c.kind = .autoLink →
      head.rule = InlineConstruct.autoLink.name) :
    (Inline.ofBody head (.leaf c)).IsApart scope := by
  have hlink : c.kind ≠ .link := by cases c <;> simp [Inline.Leaf.kind]
  constructor
  · simpa [Inline.ofBody, Inline.KeepsApart, Inline.kind] using fun h => absurd h hlink
  · intro hin
    simpa [Inline.ofBody, Inline.StandsInLink, Inline.kind, Inline.head] using ⟨hlink, hc hin⟩

variable (hnest : ∀ read, nest = some read → InlineReader.Yields read Inline.IsApart)

include hnest

lemma isApart_of_linkVia {target : Label → Text → Option (Found Destination)}
    (h : linkVia target nest scope cur = .ok (some m)) :
    (Inline.ofBody head m.value).IsApart scope := by
  obtain ⟨l, d, -, -, rfl | ⟨read, ts, hread, hout, hts, rfl⟩⟩ := exists_of_linkVia h
  · exact isApart_leaf fun _ hauto => absurd hauto (by simp [Inline.Leaf.kind])
  · have hchild := hnest read hread _ _ _ _ hts
    -- the content is read in a scope inside a link, whatever this one is
    refine ⟨Inline.forall_nodes_node.2 ⟨fun _ u hu => ?_, fun t ht => (hchild t ht).apart⟩, ?_⟩
    · obtain ⟨t, ht, hut⟩ := Inline.mem_nodesAll.1 hu
      exact (hchild t ht).inside scope.has_isInLink_insideLink u hut
    · intro hin
      rw [hout] at hin
      cases hin

lemma isApart_of_framed {frame : Inline.Frame} {size : Nat} {content : Option Text}
    (hframe : frame.kind ≠ .link) (h : framed frame size content nest scope cur = .ok (some m)) :
    (Inline.ofBody head m.value).IsApart scope := by
  obtain ⟨read, text, ts, hread, -, hts, rfl⟩ := exists_of_framed h
  have hchild := hnest read hread _ _ _ _ hts
  have hauto : frame.kind ≠ .autoLink := by cases frame <;> simp [Inline.Frame.kind]
  refine ⟨Inline.forall_nodes_node.2 ⟨fun hlink => absurd hlink hframe,
    fun t ht => (hchild t ht).apart⟩, fun hin => Inline.forall_nodes_node.2 ⟨?_, fun t ht => ?_⟩⟩
  · exact ⟨hframe, fun h => absurd h hauto⟩
  · exact (hchild t ht).inside (scope.has_isInLink_descend.trans hin)

/-- Each construct honours the scope inside a link, but for addresses in angle brackets, which
their rule makes anywhere. -/
lemma InlineConstruct.recognize_isApart {defs : Definitions} {c : InlineConstruct} {span : Span}
    (h : c.recognize defs nest scope cur = .ok (some m)) :
    (Inline.ofBody ⟨c.name, span⟩ m.value).IsApart scope := by
  have hother (hmade : c.made ≠ .autoLink) :
      (Inline.ofBody ⟨c.name, span⟩ m.value).IsApart scope := by
    rcases c.recognize_cases h with
      ⟨l, hvalue, hkind⟩ | ⟨target, -, hlink⟩ | ⟨frame, size, content, hkind, hlink, -, hframed⟩
    · rw [hvalue]
      exact isApart_leaf fun _ hauto => absurd (hkind.symm.trans hauto) hmade
    · exact isApart_of_linkVia hnest hlink
    · exact isApart_of_framed hnest (hkind ▸ hlink) hframed
  cases c with
  | autoLink =>
    obtain ⟨x, -, rfl⟩ := Option.map_eq_some_iff.1 (Except.ok.inj h)
    exact isApart_leaf fun _ _ => rfl
  | bareLink =>
    obtain ⟨hout, hbare⟩ := ok_map_of_bareLink h
    obtain ⟨x, -, rfl⟩ := Option.map_eq_some_iff.1 (Except.ok.inj hbare)
    exact isApart_leaf fun hin => absurd hin (ne_true_of_eq_false hout)
  | _ => exact hother (by simp [made])

end Constructs

/-- Every inline token that is read keeps links apart. -/
lemma readInlines_isApart {rules : RuleSet} (hrules : rules.IsStandard) (defs : Definitions) :
    InlineReader.Yields (readInlines rules defs) Inline.IsApart := by
  intro scope text origin
  refine inlinesAt_yields hrules ?_ _ scope text origin
  intro nest hnest scope cur c found _ h
  have hscope : scope.toInline.has Scope.isInLink = scope.has Scope.isInLink :=
    scope.has_isInLink_toInline
  obtain ⟨hapart, hinside⟩ := InlineConstruct.recognize_isApart hnest h
  exact ⟨hapart, hscope ▸ hinside⟩

/-- Every inline token of a document that was read keeps links apart. -/
lemma readWith_keepsApart {rules : RuleSet} (hrules : rules.IsStandard) {defs : Definitions}
    {scope : Scope} {text : Text} {root : Block}
    (h : (readWith rules defs scope text).1 = .ok root) : ∀ n ∈ root.inlineNodes, n.KeepsApart := by
  intro n hn
  obtain ⟨defs', scope', text', origin, ts, hts, u, hu, hnu⟩ :=
    exists_read_of_mem_inlineNodes hrules h hn
  exact (readInlines_isApart hrules _ _ _ _ _ hts u hu).apart n hnu

/-! ## Anchors of a document -/

/-- Where links are kept apart, no anchor holds more than one anchor around or inside the others. -/
lemma Inline.height_anchors_le_two {t : Inline} (h : ∀ n ∈ t.nodes, n.KeepsApart) :
    t.height .anchors ≤ 2 := by
  induction t using Inline.induction with
  | leaf hd c =>
    rw [Inline.height_leaf]
    exact (Weight.anchors_inline_le _).trans (by omega)
  | node hd f ts ih =>
    obtain ⟨hself, hts⟩ := Inline.forall_nodes_node.1 h
    rw [Inline.height_node]
    by_cases hlink : f.kind = .link
    · have hweight := Weight.anchors_inline_le f.kind
      have hbelow : Inline.heightAll .anchors ts ≤ 1 := by
        refine Inline.heightAll_le.2 fun t ht => ?_
        refine Inline.anchors_height_le_one.2 fun n hn hlink' => ?_
        exact absurd hlink' (hself hlink n (Inline.mem_nodesAll.2 ⟨t, ht, hn⟩)).1
      omega
    · have hauto : f.kind ≠ .autoLink := by cases f <;> simp [Inline.Frame.kind]
      rw [Weight.anchors_inline_eq_zero.2 ⟨hlink, hauto⟩, Nat.zero_add]
      exact Inline.heightAll_le.2 fun t ht => ih t ht (hts t ht)

/-- **Links hold no links.**  In each dialect, with any definitions, a text has a tree in which no
link stands inside a link, at any depth and through whatever stands in between, and no address but
one that was written in angle brackets.  In the HTML of the tree, markup of the document's own
aside, anchors are nested two deep at most, and no anchor stands in another just when no address
stands inside a link. -/
theorem links_hold_no_links (f : Flavor) (defs : Definitions) (scope : Scope) (text : Text) :
    ∃ root xs, (readWith f.rules defs scope text).1 = .ok root ∧
      Renderer.standard.blockHtml root = .ok xs ∧
      (∀ n ∈ root.inlineNodes, n.kind = .link → ∀ u ∈ Inline.nodesAll n.children,
        u.kind ≠ .link ∧ (u.kind = .autoLink → u.head.rule = InlineConstruct.autoLink.name)) ∧
      Html.anchorDepthAll xs ≤ 2 ∧
      (Html.anchorDepthAll xs ≤ 1 ↔ ∀ n ∈ root.inlineNodes, n.kind = .link →
        ∀ u ∈ Inline.nodesAll n.children, u.kind ≠ .autoLink) := by
  obtain ⟨root, hroot⟩ := exists_readWith f.rules_isStandard f.rules_hasText defs scope text
  have hapart : ∀ n ∈ root.inlineNodes, n.KeepsApart := readWith_keepsApart f.rules_isStandard hroot
  obtain ⟨xs, hxs, hdepth⟩ := root.exists_blockHtml_anchorDepth
  refine ⟨root, xs, hroot, hxs, hapart, ?_, ?_⟩
  · rw [hdepth, Block.anchors_height_le]
    intro c hc ts hts t ht
    refine Inline.height_anchors_le_two fun n hn => hapart n ?_
    simp only [Block.inlineNodes, List.mem_flatMap, Inline.mem_nodesAll]
    exact ⟨c, hc, ts, hts, t, ht, hn⟩
  · rw [hdepth, Block.anchors_height_le_one]
    constructor
    · intro h n hn hlink u hu
      exact (h n hn hlink u hu).2
    · intro h n hn hlink u hu
      exact ⟨(hapart n hn hlink u hu).1, h n hn hlink u hu⟩

/-- **An address in a link.**  The text of the link is an address in angle brackets, and the HTML
has an anchor inside an anchor. -/
theorem address_in_link :
    ∃ root, (readWith markdownRules [] Scope.document "[<https://a.b>](c)\n".toList).1 = .ok root ∧
      (∃ n ∈ root.inlineNodes, n.kind = .link ∧
        ∃ u ∈ Inline.nodesAll n.children, u.kind = .autoLink) ∧
      Renderer.standard.render root = .ok
        "<p><a href=\"c\"><a href=\"https://a.b\">https://a.b</a></a></p>\n".toList := by
  decide +kernel

end Docmark
