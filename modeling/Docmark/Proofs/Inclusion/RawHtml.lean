import Mathlib
import Docmark.Proofs.Inclusion.Build

/-!
# Raw HTML and the rules on it

The tags in the raw HTML of a document are checked file by file, before the directives of the file
are expanded; what is rendered is put together afterwards, from the trees of many files.  Here the
two are brought together: every piece of raw HTML in the tree of a document stands in the tree of a
file that was checked, and everything that the rules have to say about it was reported.

## Main results

* `Engine.rawHtml_is_reported` — every tag in a built document that some rule is about is reported,
  at its place in the file that it came from.
-/

namespace Docmark

/-! ## Raw HTML is content -/

lemma Token.html?_isContentTest : Token.IsContentTest Token.html? where
  blockNode _ _ _ := rfl
  blockLeaf h c hc := by cases c <;> first | rfl | exact absurd rfl hc
  inlineNode _ _ _ _ := rfl
  included _ _ _ := rfl
  text _ _ := rfl
  raw _ _ := rfl

/-- Other targets of links and images leave a block the raw HTML that it was. -/
lemma Token.html?_block_mapTargets (f : Text → Text) (b : Block) :
    Token.html? (.block (b.mapTargets f)) = Token.html? (.block b) := by
  cases b with
  | leaf h c =>
    rw [Block.mapTargets_leaf]
    cases c <;> rfl
  | node h fr bs =>
    rw [Block.mapTargets_node]
    rfl

lemma Token.html?_inline_mapTargets (f : Text → Text) (t : Inline) :
    Token.html? (.inline (t.mapTargets f)) = Token.html? (.inline t) := by
  cases t with
  | leaf h c =>
    rw [Inline.mapTargets_leaf]
    cases c <;> rfl
  | node h fr ts =>
    rw [Inline.mapTargets_node]
    rfl

lemma Block.mem_rawHtml_mapTargets {f : Text → Text} {b : Block} {x : RawHtml} :
    x ∈ (b.mapTargets f).rawHtml ↔ x ∈ b.rawHtml := by
  simp only [Block.rawHtml, Block.mem_collect, Block.nodes_mapTargets,
    Block.inlineNodes_mapTargets, List.mem_map, exists_exists_and_eq_and,
    Token.html?_block_mapTargets, Token.html?_inline_mapTargets]

namespace Engine

/-- Raw HTML stays as it is when the links around it are moved. -/
lemma html?_movesWith : MovesWith Token.html? fun _ _ x => x := by
  intro file path root
  have hkeep {root' : Block} (h : ∀ x ∈ root'.rawHtml, x ∈ root.rawHtml) :
      root'.Holds Token.html? fun x => ∃ y ∈ root.collect Token.html?, x = y :=
    fun x hx => ⟨x, h x hx, rfl⟩
  simp only [rebaseIncluded]
  split
  next =>
    split
    · exact Reports.pure (hkeep fun x hx => hx)
    · rw [LinkRebase.rewriter_pass]
      exact Reports.pure (hkeep fun x hx => Block.mem_rawHtml_mapTargets.1 hx)
  next => exact Reports.pure (hkeep fun x hx => hx)

/-- What is carried up as it is stands in the tree of a file that is built on the way. -/
lemma Carries.exists_tree {e : Engine} {α : Type} {p : Token → Option α} {f : OpenFile} {x : α}
    (h : e.Carries p (fun _ _ x => x) f x) :
    ∃ g root, Relation.ReflTransGen e.Includes f g ∧ e.HasTree g root ∧ x ∈ root.collect p := by
  induction h with
  | own hroot hx => exact ⟨_, _, .refl, hroot, hx⟩
  | included hg _ ih =>
    obtain ⟨g', root, hreach, hroot, hx⟩ := ih
    exact ⟨g', root, .head hg hreach, hroot, hx⟩

/-- **Raw HTML is checked where it comes from.**  With the rules of a dialect, no further passes and
some rules on HTML tags, a document is built, whatever files include what.  Each piece of raw HTML
in its tree, as a block or inline and at any depth, stands in the tree of a file that was built on
the way; and for each tag in the raw HTML of such a tree and each rule that has its name, in
whatever case, and does not leave it out as a closing one, a diagnostic of the document has the
severity and the message of the rule, names the file of the tree, and gives the point in it at which
the tag starts. -/
theorem rawHtml_is_reported (e : Engine) (flavor : Flavor) (files : MemoryFiles)
    (rules : List TagRule) (source : Source) :
    let e' := ((e.ofFlavor flavor).overFiles files).checking rules
    let start := e'.outermost source
    ∃ d, e'.parse source = .ok d ∧
      (∀ x ∈ d.root.rawHtml, ∃ g root, Relation.ReflTransGen e'.Includes start g ∧
        e'.HasTree g root ∧ x ∈ root.rawHtml) ∧
      ∀ g root, Relation.ReflTransGen e'.Includes start g → e'.HasTree g root →
        ∀ x ∈ root.rawHtml, ∀ tag ∈ htmlTags x.text, ∀ r ∈ rules,
          (∃ name ∈ r.tags, lowerAscii name = lowerAscii tag.name) →
          ¬ (r.openOnly ∧ tag.closing) →
          let p := x.head.span.start.advance (x.text.take tag.offset)
          (⟨.disallowedTag, r.severity, r.messageFor tag, g.path, p.line, p.column⟩ : Diagnostic) ∈
            d.diagnostics := by
  intro e' start
  have he : e'.IsChecking rules := checking_isChecking e flavor files rules
  obtain ⟨d, hd, hholds, hreports⟩ :=
    parse_gathers he Token.html?_isContentTest html?_movesWith source
  refine ⟨d, hd, fun x hx => (hholds x hx).exists_tree, ?_⟩
  intro g root hreach hroot x hx tag htag r hr hname hopen p
  have hcovers : r.covers tag := TagRule.covers_iff.2 ⟨hname, hopen⟩
  refine hreports _ ⟨g, root, hreach, hroot, ?_⟩
  exact List.mem_flatMap.2 ⟨x, hx, TagRule.mem_reports.2 ⟨tag, htag, r, hr, hcovers, rfl⟩⟩

end Engine

end Docmark
