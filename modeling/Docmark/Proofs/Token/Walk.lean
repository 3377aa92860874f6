import Mathlib
import Docmark.Proofs.Token.Nodes

/-!
# Walks over a tree

A rewriter, and so a validator, is offered the tokens of a document in an order that depends on the
tree alone: the root first, then every other token behind all tokens inside it.  This module lists
the tokens of a tree in that order, and gathers what a test of single tokens finds on the way.

## Main results

* `Block.mem_walk_block`, `Block.mem_walk_inline` — a walk offers every block and every inline token
  of a tree, and nothing else.
* `Token.inside_eq` — below the root, every token follows its own descendants and the siblings to
  the left of it.
* `Block.walk_perm` — a walk offers every token as often as it stands in the tree.
* `Block.mem_collect` — what is gathered from a tree comes from one of its tokens.
-/

namespace Docmark

/-! ## The order of a walk -/

/-- A token of a tree, of either kind. -/
inductive Token where
  | block (b : Block)
  | inline (t : Inline)

mutual

/-- The token and every token inside it, each behind what is inside it. -/
def Inline.postorder : Inline → List Inline
  | .leaf h c => [.leaf h c]
  | .node h f ts => Inline.postorderAll ts ++ [.node h f ts]

/-- The tokens of a sequence and every token inside them, each behind what is inside it. -/
def Inline.postorderAll : List Inline → List Inline
  | [] => []
  | t :: ts => t.postorder ++ Inline.postorderAll ts

end

@[simp] lemma Inline.postorder_leaf (h : Head) (c : Inline.Leaf) :
    (Inline.leaf h c).postorder = [.leaf h c] := by
  simp [Inline.postorder]

@[simp] lemma Inline.postorder_node (h : Head) (f : Inline.Frame) (ts : List Inline) :
    (Inline.node h f ts).postorder = Inline.postorderAll ts ++ [.node h f ts] := by
  simp [Inline.postorder]

@[simp] lemma Inline.mem_postorderAll {n : Inline} {ts : List Inline} :
    n ∈ Inline.postorderAll ts ↔ ∃ t ∈ ts, n ∈ t.postorder := by
  induction ts with
  | nil => simp [Inline.postorderAll]
  | cons t ts ih => simp [Inline.postorderAll, ih]

lemma Inline.mem_postorder {n t : Inline} : n ∈ t.postorder ↔ n ∈ t.nodes := by
  induction t using Inline.induction with
  | leaf h c => simp
  | node h f ts ih =>
    rw [Inline.postorder_node, Inline.nodes_node, List.mem_append, List.mem_singleton,
      List.mem_cons, Inline.mem_postorderAll, Inline.mem_nodesAll, or_comm]
    exact or_congr_right (exists_congr fun t => and_congr_right fun ht => ih t ht)

namespace Block

/-- The tokens inside a leaf, sequence by sequence. -/
def Leaf.inside (c : Leaf) : List Token := (c.inlines.flatMap Inline.postorderAll).map .inline

mutual

/-- The tokens inside a block, each behind what is inside it. -/
def inside : Block → List Token
  | .leaf _ c => c.inside
  | .node _ _ bs => insideAll bs

/-- The blocks of a sequence and every token inside them, each behind what is inside it. -/
def insideAll : List Block → List Token
  | [] => []
  | b :: bs => b.inside ++ .block b :: insideAll bs

end

/-- The tokens of a document in the order of a walk: the root, then everything inside it. -/
def walk (root : Block) : List Token := .block root :: root.inside

@[simp] lemma inside_leaf (h : Head) (c : Leaf) : (Block.leaf h c).inside = c.inside := by
  simp [inside]

@[simp] lemma inside_node (h : Head) (f : Frame) (bs : List Block) :
    (Block.node h f bs).inside = insideAll bs := by
  simp [inside]

lemma mem_insideAll {x : Token} {bs : List Block} :
    x ∈ insideAll bs ↔ ∃ b ∈ bs, x ∈ b.inside ∨ x = .block b := by
  induction bs with
  | nil => simp [insideAll]
  | cons b bs ih => simp [insideAll, ih, or_assoc]

lemma mem_inside_block {n b : Block} : .block n ∈ b.inside ∨ n = b ↔ n ∈ b.nodes := by
  induction b using Block.induction with
  | leaf h c => simp [Leaf.inside]
  | node h f bs ih =>
    rw [inside_node, mem_insideAll, nodes_node, List.mem_cons, mem_nodesAll, or_comm]
    refine or_congr_right (exists_congr fun b => and_congr_right fun hb => ?_)
    rw [← ih b hb, Token.block.injEq]

lemma mem_inside_inline {t : Inline} {b : Block} : .inline t ∈ b.inside ↔ t ∈ b.inlineNodes := by
  induction b using Block.induction with
  | leaf h c =>
    simp [Leaf.inside, inlineNodes, inlines, Inline.mem_postorder]
  | node h f bs ih =>
    have hbelow : t ∈ (Block.node h f bs).inlineNodes ↔ ∃ b ∈ bs, t ∈ b.inlineNodes := by
      simp only [inlineNodes, nodes_node, List.flatMap_cons, inlines, List.flatMap_nil,
        List.nil_append, List.mem_flatMap, mem_nodesAll]
      constructor
      · rintro ⟨n, ⟨b, hb, hn⟩, ht⟩
        exact ⟨b, hb, n, hn, ht⟩
      · rintro ⟨b, hb, n, hn, ht⟩
        exact ⟨n, ⟨b, hb, hn⟩, ht⟩
    rw [inside_node, mem_insideAll, hbelow]
    refine exists_congr fun b => and_congr_right fun hb => ?_
    rw [ih b hb]
    simp

@[simp] lemma mem_walk_block {n root : Block} : .block n ∈ root.walk ↔ n ∈ root.nodes := by
  rw [walk, List.mem_cons, Token.block.injEq, or_comm]
  exact mem_inside_block

@[simp] lemma mem_walk_inline {t : Inline} {root : Block} :
    .inline t ∈ root.walk ↔ t ∈ root.inlineNodes := by
  rw [walk, List.mem_cons, ← mem_inside_inline]
  simp

end Block

/-! ## The order, part by part -/

/-- The tokens directly inside a token, in source order: the blocks of a container, the inline
tokens of a leaf, sequence by sequence, or those of an inline frame. -/
def Token.parts : Token → List Token
  | .block b => b.children.map .block ++ b.inlines.flatten.map .inline
  | .inline t => t.children.map .inline

/-- All tokens inside a token, each behind what is inside it. -/
def Token.inside : Token → List Token
  | .block b => b.inside
  | .inline t => (Inline.postorderAll t.children).map .inline

lemma Inline.postorder_eq (t : Inline) : t.postorder = Inline.postorderAll t.children ++ [t] := by
  cases t with
  | leaf h c => simp [Inline.children, Inline.postorderAll]
  | node h f ts => rw [Inline.postorder_node, Inline.children]

lemma Inline.postorderAll_eq_flatMap (ts : List Inline) :
    Inline.postorderAll ts = ts.flatMap Inline.postorder := by
  induction ts with
  | nil => rw [Inline.postorderAll, List.flatMap_nil]
  | cons t ts ih => rw [Inline.postorderAll, List.flatMap_cons, ih]

lemma Inline.map_postorderAll (ts : List Inline) :
    (Inline.postorderAll ts).map Token.inline =
      (ts.map Token.inline).flatMap fun y => y.inside ++ [y] := by
  rw [Inline.postorderAll_eq_flatMap, List.map_flatMap, List.flatMap_map]
  refine List.flatMap_congr fun t _ => ?_
  rw [Inline.postorder_eq, List.map_append]
  rfl

lemma Block.insideAll_eq_flatMap (bs : List Block) :
    Block.insideAll bs = bs.flatMap fun b => b.inside ++ [.block b] := by
  induction bs with
  | nil => rw [Block.insideAll, List.flatMap_nil]
  | cons b bs ih => rw [Block.insideAll, List.flatMap_cons, ih, List.append_cons]

/-- What is inside a token is, part by part, what is inside the part and then the part. -/
lemma Token.inside_eq (x : Token) : x.inside = x.parts.flatMap fun y => y.inside ++ [y] := by
  cases x with
  | inline t => exact Inline.map_postorderAll t.children
  | block b =>
    cases b with
    | leaf h c =>
      have hflat : c.inlines.flatMap Inline.postorderAll = Inline.postorderAll c.inlines.flatten := by
        rw [Inline.postorderAll_eq_flatMap, ← List.flatMap_id, List.flatMap_assoc]
        exact List.flatMap_congr fun ts _ => Inline.postorderAll_eq_flatMap ts
      rw [Token.inside, Token.parts, Block.inside_leaf, Block.Leaf.inside, Block.children,
        Block.inlines, List.map_nil, List.nil_append, ← Inline.map_postorderAll, hflat]
    | node h f bs =>
      rw [Token.inside, Token.parts, Block.inside_node, Block.insideAll_eq_flatMap, Block.children,
        Block.inlines, List.flatten_nil, List.map_nil, List.append_nil, List.flatMap_map]
      rfl

/-! ## Every token once -/

lemma Inline.postorderAll_perm_of {ts : List Inline} (h : ∀ t ∈ ts, t.postorder.Perm t.nodes) :
    (Inline.postorderAll ts).Perm (Inline.nodesAll ts) := by
  rw [Inline.postorderAll_eq_flatMap, Inline.nodesAll_eq_flatMap]
  exact List.Perm.flatMap_left ts h

/-- Inside out or parents first, an inline tree has the same tokens, each as often as it stands
there. -/
lemma Inline.postorder_perm (t : Inline) : t.postorder.Perm t.nodes := by
  induction t using Inline.induction with
  | leaf h c => simp
  | node h f ts ih =>
    rw [Inline.postorder_node, Inline.nodes_node]
    exact (List.perm_append_singleton _ _).trans ((Inline.postorderAll_perm_of ih).cons _)

/-- The tokens of a tree, the blocks before the inline tokens. -/
def Block.tokens (b : Block) : List Token := b.nodes.map .block ++ b.inlineNodes.map .inline

/-- A walk offers every token of a tree as often as it stands there. -/
lemma Block.walk_perm (b : Block) : b.walk.Perm b.tokens := by
  induction b using Block.induction with
  | leaf h c =>
    have hinline : (c.inlines.flatMap Inline.postorderAll).Perm
        (c.inlines.flatMap Inline.nodesAll) :=
      List.Perm.flatMap_left _ fun ts _ =>
        Inline.postorderAll_perm_of fun t _ => t.postorder_perm
    simpa [walk, tokens, Leaf.inside, inlineNodes, inlines] using hinline.map _
  | node h f bs ih =>
    have hinside : (insideAll bs).Perm (bs.flatMap walk) := by
      rw [insideAll_eq_flatMap]
      exact List.Perm.flatMap_left bs fun b _ => List.perm_append_singleton _ _
    have htokens : (bs.flatMap tokens).Perm
        ((nodesAll bs).map .block ++ (bs.flatMap inlineNodes).map .inline) := by
      rw [nodesAll_eq_flatMap, List.map_flatMap, List.map_flatMap]
      exact (List.flatMap_append_perm bs _ _).symm
    have hbelow : (Block.node h f bs).inlineNodes = bs.flatMap inlineNodes := by
      rw [inlineNodes, nodes_node, List.flatMap_cons, inlines, List.flatMap_nil, List.nil_append,
        nodesAll_eq_flatMap, List.flatMap_assoc]
      rfl
    rw [walk, inside_node, tokens, nodes_node, hbelow, List.map_cons, List.cons_append]
    exact ((hinside.trans (List.Perm.flatMap_left bs ih)).trans htokens).cons _

/-! ## Gathering from a tree -/

section Collect

variable {α : Type} (p : Token → Option α)

/-- What a test finds in an inline token and inside it. -/
def Inline.collect (t : Inline) : List α := t.postorder.filterMap fun n => p (.inline n)

/-- What a test finds in a block and inside it. -/
def Block.collect (b : Block) : List α := b.walk.filterMap p

variable {p} {x : α}

lemma Inline.mem_collect {t : Inline} :
    x ∈ t.collect p ↔ ∃ n ∈ t.nodes, p (.inline n) = some x := by
  simp only [Inline.collect, List.mem_filterMap, Inline.mem_postorder]

/-- What is gathered from a block is found in one of the blocks or inline tokens of its tree. -/
lemma Block.mem_collect {b : Block} :
    x ∈ b.collect p ↔ (∃ n ∈ b.nodes, p (.block n) = some x) ∨
      ∃ t ∈ b.inlineNodes, p (.inline t) = some x := by
  rw [Block.collect, List.mem_filterMap]
  constructor
  · rintro ⟨n | t, hmem, hx⟩
    · exact .inl ⟨n, Block.mem_walk_block.1 hmem, hx⟩
    · exact .inr ⟨t, Block.mem_walk_inline.1 hmem, hx⟩
  · rintro (⟨n, hmem, hx⟩ | ⟨t, hmem, hx⟩)
    · exact ⟨.block n, Block.mem_walk_block.2 hmem, hx⟩
    · exact ⟨.inline t, Block.mem_walk_inline.2 hmem, hx⟩

lemma Inline.mem_collect_leaf {h : Head} {c : Inline.Leaf} :
    x ∈ (Inline.leaf h c).collect p ↔ p (.inline (.leaf h c)) = some x := by
  simp [Inline.mem_collect]

lemma Inline.mem_collect_node {h : Head} {f : Inline.Frame} {ts : List Inline} :
    x ∈ (Inline.node h f ts).collect p ↔
      p (.inline (.node h f ts)) = some x ∨ ∃ t ∈ ts, x ∈ t.collect p := by
  simp only [Inline.mem_collect, Inline.nodes_node, List.exists_mem_cons_iff, Inline.mem_nodesAll]
  refine or_congr_right ⟨?_, ?_⟩
  · rintro ⟨n, ⟨t, ht, hn⟩, hx⟩
    exact ⟨t, ht, n, hn, hx⟩
  · rintro ⟨t, ht, n, hn, hx⟩
    exact ⟨n, ⟨t, ht, hn⟩, hx⟩

lemma Block.mem_collect_leaf {h : Head} {c : Block.Leaf} :
    x ∈ (Block.leaf h c).collect p ↔ p (.block (.leaf h c)) = some x ∨
      ∃ ts ∈ c.inlines, ∃ t ∈ ts, x ∈ t.collect p := by
  simp only [Block.mem_collect, Inline.mem_collect, Block.nodes_leaf, List.mem_singleton,
    exists_eq_left, Block.inlineNodes, List.flatMap_singleton, Block.inlines, List.mem_flatMap,
    Inline.mem_nodesAll]
  refine or_congr_right ⟨?_, ?_⟩
  · rintro ⟨n, ⟨ts, hts, t, ht, hn⟩, hx⟩
    exact ⟨ts, hts, t, ht, n, hn, hx⟩
  · rintro ⟨ts, hts, t, ht, n, hn, hx⟩
    exact ⟨n, ⟨ts, hts, t, ht, hn⟩, hx⟩

lemma Block.mem_collect_node {h : Head} {f : Block.Frame} {bs : List Block} :
    x ∈ (Block.node h f bs).collect p ↔
      p (.block (.node h f bs)) = some x ∨ ∃ b ∈ bs, x ∈ b.collect p := by
  have hself : x ∈ (Block.node h f bs).collect p ↔ p (.block (.node h f bs)) = some x ∨
      ∃ y, (∃ b ∈ bs, y ∈ b.inside ∨ y = .block b) ∧ p y = some x := by
    simp only [Block.collect, Block.walk, List.mem_filterMap, List.exists_mem_cons_iff,
      Block.inside_node, Block.mem_insideAll]
  rw [hself]
  simp only [Block.collect, Block.walk, List.mem_filterMap, List.mem_cons]
  refine or_congr_right ⟨?_, ?_⟩
  · rintro ⟨y, ⟨b, hb, hy⟩, hx⟩
    exact ⟨b, hb, y, hy.symm, hx⟩
  · rintro ⟨b, hb, y, hy, hx⟩
    exact ⟨y, ⟨b, hb, hy.symm⟩, hx⟩

end Collect

end Docmark
