import Mathlib
import Docmark.Include
import Docmark.Proofs.Token.Walk

/-!
# The directives of a tree

What an expansion of a tree does depends on the tree and on the steps that load the targets of its
directives.  This module lists the directives of a tree with their places, part by part, and carries
what holds of the loading steps over to the whole expansion.

## Main results

* `Block.sites_leaf`, `Block.sites_node` — the directives of a tree, in source order.
* `expandBlock_related` — two expansions of a tree are related as their loading steps are.
-/

namespace Docmark

/-! ## Directives with their places -/

/-- The directive that a token is, with the stretch of source that the token was made from. -/
def Token.site? : Token → Option (Directive × Span)
  | .block (.leaf h (.directive d)) => some (d, h.span)
  | .inline (.leaf h (.directive d)) => some (d, h.span)
  | _ => none

/-- The directives in an inline token, with their places. -/
def Inline.sites (t : Inline) : List (Directive × Span) := t.collect Token.site?

/-- The directives in a tree, with their places. -/
def Block.sites (b : Block) : List (Directive × Span) := b.collect Token.site?

@[simp] lemma Inline.sites_directive (h : Head) (d : Directive) :
    (Inline.leaf h (.directive d)).sites = [(d, h.span)] := rfl

lemma Inline.sites_leaf {h : Head} {c : Inline.Leaf} (hc : c.kind ≠ .directive) :
    (Inline.leaf h c).sites = [] := by
  cases c <;> first | rfl | exact absurd rfl hc

lemma Inline.filterMap_postorderAll (ts : List Inline) :
    (postorderAll ts).filterMap (fun n => Token.site? (.inline n)) = ts.flatMap sites := by
  rw [postorderAll_eq_flatMap, List.filterMap_flatMap]
  rfl

lemma Inline.sites_node (h : Head) (f : Inline.Frame) (ts : List Inline) :
    (Inline.node h f ts).sites = ts.flatMap sites := by
  rw [sites, collect, postorder_node, List.filterMap_append, filterMap_postorderAll]
  exact List.append_nil _

namespace Block

@[simp] lemma sites_directive (h : Head) (d : Directive) :
    (Block.leaf h (.directive d)).sites = [(d, h.span)] := rfl

lemma sites_leaf {h : Head} {c : Leaf} (hc : c.kind ≠ .directive) :
    (Block.leaf h c).sites = c.inlines.flatMap fun ts => ts.flatMap Inline.sites := by
  have hself : Token.site? (.block (.leaf h c)) = none := by
    cases c <;> first | rfl | exact absurd rfl hc
  rw [sites, collect, walk, List.filterMap_cons_none hself, inside_leaf, Leaf.inside,
    List.filterMap_map, List.filterMap_flatMap]
  exact List.flatMap_congr fun ts _ => Inline.filterMap_postorderAll ts

/-- A directive has nothing inside it, so it does not matter whether a walk offers a block before or
behind what is inside it. -/
lemma filterMap_inside_append (b : Block) :
    (b.inside ++ [Token.block b]).filterMap Token.site? = b.sites := by
  have hnone (hb : Token.site? (.block b) = none) :
      (b.inside ++ [Token.block b]).filterMap Token.site? = b.sites := by
    rw [sites, collect, walk, List.filterMap_append, List.filterMap_cons_none hb,
      List.filterMap_cons_none hb, List.filterMap_nil, List.append_nil]
  cases b with
  | node h f bs => exact hnone rfl
  | leaf h c => cases c <;> first | rfl | exact hnone rfl

lemma sites_node (h : Head) (f : Frame) (bs : List Block) :
    (Block.node h f bs).sites = bs.flatMap sites := by
  rw [sites, collect, walk, List.filterMap_cons_none rfl, inside_node, insideAll_eq_flatMap,
    List.filterMap_flatMap]
  exact List.flatMap_congr fun b _ => b.filterMap_inside_append

end Block

/-! ## What expansion does with its loader

An expansion knows nothing of the steps that it is made of but how to put them one behind the other.
So two expansions of a tree are related as the steps are in which its directives are loaded. -/

section Related

variable {m m' : Type → Type} [Monad m] [LawfulMonad m] [Monad m'] [LawfulMonad m']

lemma expandInlines_eq_mapM {load : Loader m} (ts : List Inline) :
    expandInlines load ts = ts.mapM (expandInline load) := by
  induction ts with
  | nil => rw [expandInlines, List.mapM_nil]
  | cons t ts ih => rw [expandInlines, List.mapM_cons, ih]

lemma expandBlocks_eq_mapM {load : Loader m} (bs : List Block) :
    expandBlocks load bs = bs.mapM (expandBlock load) := by
  induction bs with
  | nil => rw [expandBlocks, List.mapM_nil]
  | cons b bs ih => rw [expandBlocks, List.mapM_cons, ih]

lemma Block.Leaf.exists_of_kind_directive {c : Block.Leaf} (hc : c.kind = .directive) :
    ∃ d, c = .directive d := by
  cases c <;> first | exact ⟨_, rfl⟩ | cases hc

omit [LawfulMonad m] in
/-- A leaf other than a directive keeps its place, and its inlines are expanded. -/
lemma expandBlock_leaf {load : Loader m} {h : Head} {c : Block.Leaf} (hc : c.kind ≠ .directive) :
    expandBlock load (.leaf h c) = expandLeaf load c >>= fun c' => Pure.pure (.leaf h c') := by
  cases c <;> first | rfl | exact absurd rfl hc

/-- A relation between the steps of two kinds that a composition of related steps is in. -/
structure IsComposed (R : (α : Type) → m α → m' α → Prop) : Prop where
  pure : ∀ {α : Type} (x : α), R α (Pure.pure x) (Pure.pure x)
  bind : ∀ {α β : Type} {a : m α} {a' : m' α} {f : α → m β} {f' : α → m' β}, R α a a' →
    (∀ x, R β (f x) (f' x)) → R β (a >>= f) (a' >>= f')

variable {R : (α : Type) → m α → m' α → Prop} (hR : IsComposed R) {load : Loader m}
  {load' : Loader m'}

include hR

lemma IsComposed.mapM {α β : Type} {f : α → m β} {f' : α → m' β} {as : List α}
    (h : ∀ a ∈ as, R β (f a) (f' a)) : R (List β) (as.mapM f) (as.mapM f') := by
  induction as with
  | nil => exact hR.pure []
  | cons a as ih =>
    rw [List.mapM_cons, List.mapM_cons]
    refine hR.bind (h a List.mem_cons_self) fun b => ?_
    exact hR.bind (ih fun a' ha' => h a' (List.mem_cons_of_mem _ ha')) fun bs => hR.pure _

lemma expandInline_related (t : Inline)
    (h : ∀ s ∈ t.sites, R _ (load s.1 s.2) (load' s.1 s.2)) :
    R Inline (expandInline load t) (expandInline load' t) := by
  induction t using Inline.induction with
  | leaf hd c =>
    cases c with
    | directive d =>
      rw [expandInline, expandInline]
      refine hR.bind (h (d, hd.span) List.mem_cons_self) fun found => ?_
      cases found <;> exact hR.pure _
    | _ =>
      simp only [expandInline]
      exact hR.pure _
  | node hd f ts ih =>
    rw [Inline.sites_node] at h
    rw [expandInline, expandInline, expandInlines_eq_mapM, expandInlines_eq_mapM]
    refine hR.bind (hR.mapM fun t ht => ih t ht fun s hs => ?_) fun ts' => hR.pure _
    exact h s (List.mem_flatMap.2 ⟨t, ht, hs⟩)

lemma expandInlines_related {ts : List Inline}
    (h : ∀ s ∈ ts.flatMap Inline.sites, R _ (load s.1 s.2) (load' s.1 s.2)) :
    R (List Inline) (expandInlines load ts) (expandInlines load' ts) := by
  rw [expandInlines_eq_mapM, expandInlines_eq_mapM]
  exact hR.mapM fun t ht =>
    expandInline_related hR t fun s hs => h s (List.mem_flatMap.2 ⟨t, ht, hs⟩)

lemma expandLeaf_related (c : Block.Leaf)
    (h : ∀ ts ∈ c.inlines, ∀ s ∈ ts.flatMap Inline.sites, R _ (load s.1 s.2) (load' s.1 s.2)) :
    R Block.Leaf (expandLeaf load c) (expandLeaf load' c) := by
  cases c with
  | heading | paragraph | text =>
    exact hR.bind (expandInlines_related hR (h _ List.mem_cons_self)) fun ts' => hR.pure _
  | table align header rows =>
    have hheader := hR.mapM fun ts hts =>
      expandInlines_related hR (h ts (List.mem_append_left _ hts))
    have hrows := hR.mapM fun row hrow => hR.mapM fun ts hts =>
      expandInlines_related hR
        (h ts (List.mem_append_right _ (List.mem_flatten.2 ⟨row, hrow, hts⟩)))
    exact hR.bind hheader fun header' => hR.bind hrows fun rows' => hR.pure _
  | _ => exact hR.pure _

/-- Two expansions of a tree are related if the steps that load the targets of its directives
are. -/
lemma expandBlock_related (load : Loader m) (load' : Loader m') (b : Block)
    (h : ∀ s ∈ b.sites, R _ (load s.1 s.2) (load' s.1 s.2)) :
    R Block (expandBlock load b) (expandBlock load' b) := by
  induction b using Block.induction with
  | leaf hd c =>
    by_cases hc : c.kind = .directive
    · obtain ⟨d, rfl⟩ := Block.Leaf.exists_of_kind_directive hc
      rw [expandBlock, expandBlock]
      refine hR.bind (h (d, hd.span) List.mem_cons_self) fun found => ?_
      cases found <;> exact hR.pure _
    · rw [Block.sites_leaf hc] at h
      have hleaf := expandLeaf_related hR c fun ts hts s hs => h s (List.mem_flatMap.2 ⟨ts, hts, hs⟩)
      rw [expandBlock_leaf hc, expandBlock_leaf hc]
      exact hR.bind hleaf fun c' => hR.pure _
  | node hd f bs ih =>
    rw [Block.sites_node] at h
    rw [expandBlock, expandBlock, expandBlocks_eq_mapM, expandBlocks_eq_mapM]
    refine hR.bind (hR.mapM fun b hb => ih b hb fun s hs => ?_) fun bs' => hR.pure _
    exact h s (List.mem_flatMap.2 ⟨b, hb, hs⟩)

end Related

end Docmark
