import Mathlib
import Docmark.Token.Block

/-!
# The nodes of a tree

Induction over token trees, and the list of all tokens in a tree.  The trees are nested through
lists, so the principles that Lean generates carry a second motive for the lists; the ones here ask
only that a property passes from all direct children to their parent.

A statement about "every token, however deep" is written as a statement about the members of
`Block.nodes`, `Inline.nodes` or, for the inline tokens of a block, `Block.inlineNodes`.
-/

namespace Docmark

/-! ## Inlines -/

/-- A property of inline tokens holds if it passes from the children of every token to the token. -/
@[elab_as_elim]
theorem Inline.induction {P : Inline → Prop} (leaf : ∀ h c, P (.leaf h c))
    (node : ∀ h f ts, (∀ t ∈ ts, P t) → P (.node h f ts)) (t : Inline) : P t := by
  refine Inline.rec (motive_1 := P) (motive_2 := fun ts => ∀ t ∈ ts, P t) leaf node ?_ ?_ t
  · intro t ht
    cases ht
  · intro t ts ht hts u hu
    rcases List.mem_cons.1 hu with rfl | hu
    · exact ht
    · exact hts u hu

mutual

/-- The token itself and every token inside it, parents first. -/
def Inline.nodes : Inline → List Inline
  | .leaf h c => [.leaf h c]
  | .node h f ts => .node h f ts :: Inline.nodesAll ts

/-- The tokens of a sequence and every token inside them. -/
def Inline.nodesAll : List Inline → List Inline
  | [] => []
  | t :: ts => t.nodes ++ Inline.nodesAll ts

end

@[simp] lemma Inline.nodes_leaf (h : Head) (c : Inline.Leaf) :
    (Inline.leaf h c).nodes = [.leaf h c] := by
  simp [Inline.nodes]

@[simp] lemma Inline.nodes_node (h : Head) (f : Inline.Frame) (ts : List Inline) :
    (Inline.node h f ts).nodes = .node h f ts :: Inline.nodesAll ts := by
  simp [Inline.nodes]

@[simp] lemma Inline.mem_nodesAll {n : Inline} {ts : List Inline} :
    n ∈ Inline.nodesAll ts ↔ ∃ t ∈ ts, n ∈ t.nodes := by
  induction ts with
  | nil => simp [Inline.nodesAll]
  | cons t ts ih => simp [Inline.nodesAll, ih]

lemma Inline.nodesAll_eq_flatMap (ts : List Inline) :
    Inline.nodesAll ts = ts.flatMap Inline.nodes := by
  induction ts with
  | nil => simp [Inline.nodesAll]
  | cons t ts ih => simp [Inline.nodesAll, ih]

/-- A property of all nodes of a frame is one of the frame and of all nodes of its children. -/
lemma Inline.forall_nodes_node {P : Inline → Prop} {h : Head} {f : Inline.Frame}
    {ts : List Inline} :
    (∀ n ∈ (Inline.node h f ts).nodes, P n) ↔
      P (.node h f ts) ∧ ∀ t ∈ ts, ∀ n ∈ t.nodes, P n := by
  simp only [Inline.nodes_node, List.forall_mem_cons, Inline.mem_nodesAll]
  exact and_congr_right fun _ => ⟨fun h t ht n hn => h n ⟨t, ht, hn⟩,
    fun h n ⟨t, ht, hn⟩ => h t ht n hn⟩

/-! ## Blocks -/

/-- A property of blocks holds if it passes from the children of every block to the block. -/
@[elab_as_elim]
theorem Block.induction {P : Block → Prop} (leaf : ∀ h c, P (.leaf h c))
    (node : ∀ h f bs, (∀ b ∈ bs, P b) → P (.node h f bs)) (b : Block) : P b := by
  refine Block.rec (motive_1 := P) (motive_2 := fun bs => ∀ b ∈ bs, P b) leaf node ?_ ?_ b
  · intro b hb
    cases hb
  · intro b bs hb hbs d hd
    rcases List.mem_cons.1 hd with rfl | hd
    · exact hb
    · exact hbs d hd

mutual

/-- The block itself and every block inside it, parents first. -/
def Block.nodes : Block → List Block
  | .leaf h c => [.leaf h c]
  | .node h f bs => .node h f bs :: Block.nodesAll bs

/-- The blocks of a sequence and every block inside them. -/
def Block.nodesAll : List Block → List Block
  | [] => []
  | b :: bs => b.nodes ++ Block.nodesAll bs

end

@[simp] lemma Block.nodes_leaf (h : Head) (c : Block.Leaf) :
    (Block.leaf h c).nodes = [.leaf h c] := by
  simp [Block.nodes]

@[simp] lemma Block.nodes_node (h : Head) (f : Block.Frame) (bs : List Block) :
    (Block.node h f bs).nodes = .node h f bs :: Block.nodesAll bs := by
  simp [Block.nodes]

@[simp] lemma Block.mem_nodesAll {n : Block} {bs : List Block} :
    n ∈ Block.nodesAll bs ↔ ∃ b ∈ bs, n ∈ b.nodes := by
  induction bs with
  | nil => simp [Block.nodesAll]
  | cons b bs ih => simp [Block.nodesAll, ih]

lemma Block.nodesAll_eq_flatMap (bs : List Block) :
    Block.nodesAll bs = bs.flatMap Block.nodes := by
  induction bs with
  | nil => simp [Block.nodesAll]
  | cons b bs ih => simp [Block.nodesAll, ih]

/-- A property of all nodes of a container is one of the container and of all nodes of its
children. -/
lemma Block.forall_nodes_node {P : Block → Prop} {h : Head} {f : Block.Frame} {bs : List Block} :
    (∀ n ∈ (Block.node h f bs).nodes, P n) ↔
      P (.node h f bs) ∧ ∀ b ∈ bs, ∀ n ∈ b.nodes, P n := by
  simp only [Block.nodes_node, List.forall_mem_cons, Block.mem_nodesAll]
  exact and_congr_right fun _ => ⟨fun h b hb n hn => h n ⟨b, hb, hn⟩,
    fun h n ⟨b, hb, hn⟩ => h b hb n hn⟩

/-- Every inline token of a block and of the blocks inside it, at any depth. -/
def Block.inlineNodes (b : Block) : List Inline :=
  b.nodes.flatMap fun n => n.inlines.flatMap Inline.nodesAll

lemma Block.forall_inlineNodes_leaf {P : Inline → Prop} {h : Head} {c : Block.Leaf} :
    (∀ t ∈ (Block.leaf h c).inlineNodes, P t) ↔ ∀ ts ∈ c.inlines, ∀ u ∈ ts, ∀ t ∈ u.nodes, P t := by
  simp only [Block.inlineNodes, Block.nodes_leaf, List.flatMap_singleton, Block.inlines,
    List.mem_flatMap, Inline.mem_nodesAll]
  exact ⟨fun h ts hts u hu t ht => h t ⟨ts, hts, u, hu, ht⟩,
    fun h t ⟨ts, hts, u, hu, ht⟩ => h ts hts u hu t ht⟩

lemma Block.forall_inlineNodes_node {P : Inline → Prop} {h : Head} {f : Block.Frame}
    {bs : List Block} :
    (∀ t ∈ (Block.node h f bs).inlineNodes, P t) ↔ ∀ b ∈ bs, ∀ t ∈ b.inlineNodes, P t := by
  simp only [Block.inlineNodes, Block.nodes_node, List.flatMap_cons, Block.inlines,
    List.flatMap_nil, List.nil_append, List.mem_flatMap, Block.mem_nodesAll]
  exact ⟨fun h b hb t ⟨n, hn, ht⟩ => h t ⟨n, ⟨b, hb, hn⟩, ht⟩,
    fun h t ⟨n, ⟨b, hb, hn⟩, ht⟩ => h b hb t ⟨n, hn, ht⟩⟩

end Docmark
