import Mathlib
import Docmark.Proofs.Token.Nodes

/-!
# The height of a tree

A weight gives a number to every kind of token.  The height of a tree under a weight is the greatest
total weight of tokens each of which lies inside the one before it.  Two weights matter here: under
`Weight.inclusions` the height is the depth to which included content is nested, and under
`Weight.directives` it is zero just when no directive is left at any depth.

What a rewriter or an expansion does to a tree is stated for heights, so that one induction over the
tree serves for both.
-/

namespace Docmark

/-- A number for every kind of token. -/
structure Weight where
  block : BlockTag → Nat
  inline : InlineTag → Nat

namespace Weight

/-- Counts included content. -/
def inclusions : Weight where
  block k := if k = .included then 1 else 0
  inline k := if k = .included then 1 else 0

/-- Counts directives. -/
def directives : Weight where
  block k := if k = .directive then 1 else 0
  inline k := if k = .directive then 1 else 0

/-- The weight with `n` for each directive. -/
def onDirectives (w : Weight) (n : Nat) : Weight where
  block k := if k = .directive then n else w.block k
  inline k := if k = .directive then n else w.inline k

end Weight

/-! ## Inlines -/

mutual

/-- The greatest total weight of tokens inside each other, from a token downwards. -/
def Inline.height (w : Weight) : Inline → Nat
  | .leaf _ c => w.inline c.kind
  | .node _ f ts => w.inline f.kind + Inline.heightAll w ts

/-- The greatest height among some tokens. -/
def Inline.heightAll (w : Weight) : List Inline → Nat
  | [] => 0
  | t :: ts => max (t.height w) (Inline.heightAll w ts)

end

/-- The greatest height in some sequences of tokens. -/
def Inline.heightRows (w : Weight) (rows : List (List Inline)) : Nat :=
  (rows.map (Inline.heightAll w)).foldr max 0

section Inline

variable {w : Weight}

@[simp] lemma Inline.height_leaf (h : Head) (c : Inline.Leaf) :
    (Inline.leaf h c).height w = w.inline c.kind := by
  simp [Inline.height]

@[simp] lemma Inline.height_node (h : Head) (f : Inline.Frame) (ts : List Inline) :
    (Inline.node h f ts).height w = w.inline f.kind + Inline.heightAll w ts := by
  simp [Inline.height]

@[simp] lemma Inline.heightAll_nil : Inline.heightAll w [] = 0 := by
  simp [Inline.heightAll]

@[simp] lemma Inline.heightAll_cons (t : Inline) (ts : List Inline) :
    Inline.heightAll w (t :: ts) = max (t.height w) (Inline.heightAll w ts) := by
  simp [Inline.heightAll]

lemma Inline.heightAll_le {ts : List Inline} {n : Nat} :
    Inline.heightAll w ts ≤ n ↔ ∀ t ∈ ts, t.height w ≤ n := by
  induction ts with
  | nil => simp
  | cons t ts ih => simp [ih]

@[simp] lemma Inline.heightAll_append (ts us : List Inline) :
    Inline.heightAll w (ts ++ us) = max (Inline.heightAll w ts) (Inline.heightAll w us) := by
  induction ts with
  | nil => simp
  | cons t ts ih => simp [ih, max_assoc]

@[simp] lemma Inline.heightRows_nil : Inline.heightRows w [] = 0 := rfl

@[simp] lemma Inline.heightRows_cons (ts : List Inline) (rows : List (List Inline)) :
    Inline.heightRows w (ts :: rows) = max (Inline.heightAll w ts) (Inline.heightRows w rows) := rfl

lemma Inline.heightRows_le {rows : List (List Inline)} {n : Nat} :
    Inline.heightRows w rows ≤ n ↔ ∀ ts ∈ rows, Inline.heightAll w ts ≤ n := by
  induction rows with
  | nil => simp
  | cons ts rows ih => simp [ih]

@[simp] lemma Inline.heightRows_append (rows rows' : List (List Inline)) :
    Inline.heightRows w (rows ++ rows') =
      max (Inline.heightRows w rows) (Inline.heightRows w rows') := by
  induction rows with
  | nil => simp
  | cons ts rows ih => simp [ih, max_assoc]

/-- Rows of which each is no higher than the one it comes from. -/
lemma Inline.heightRows_le_of_forall₂ {wt wt' : Weight} {rows rows' : List (List Inline)}
    (h : List.Forall₂ (fun ts ts' => Inline.heightAll wt' ts' ≤ Inline.heightAll wt ts)
      rows rows') :
    Inline.heightRows wt' rows' ≤ Inline.heightRows wt rows := by
  induction h with
  | nil => simp
  | cons hts _ ih =>
    rw [Inline.heightRows_cons, Inline.heightRows_cons]
    exact max_le_max hts ih

lemma Inline.heightRows_flatten_le_of_forall₂ {wt wt' : Weight}
    {tables tables' : List (List (List Inline))}
    (h : List.Forall₂ (fun rows rows' => Inline.heightRows wt' rows' ≤ Inline.heightRows wt rows)
      tables tables') :
    Inline.heightRows wt' tables'.flatten ≤ Inline.heightRows wt tables.flatten := by
  induction h with
  | nil => simp
  | cons hrows _ ih =>
    rw [List.flatten_cons, List.flatten_cons, Inline.heightRows_append, Inline.heightRows_append]
    exact max_le_max hrows ih

/-- A tree has no height just when no token in it has any weight. -/
lemma Inline.height_eq_zero {t : Inline} :
    t.height w = 0 ↔ ∀ n ∈ t.nodes, w.inline n.kind = 0 := by
  induction t using Inline.induction with
  | leaf h c => simp [Inline.kind]
  | node h f ts ih =>
    have hall : Inline.heightAll w ts = 0 ↔ ∀ t ∈ ts, ∀ n ∈ t.nodes, w.inline n.kind = 0 := by
      rw [← Nat.le_zero, Inline.heightAll_le]
      exact forall₂_congr fun t ht => by rw [Nat.le_zero, ih t ht]
    rw [Inline.forall_nodes_node, Inline.height_node, Nat.add_eq_zero_iff, hall]
    rfl

end Inline

/-! ## Blocks -/

/-- The height of a leaf: its own weight, and what its inline sequences have. -/
def Block.Leaf.height (w : Weight) (c : Block.Leaf) : Nat :=
  w.block c.kind + Inline.heightRows w c.inlines

mutual

/-- The greatest total weight of tokens inside each other, from a block downwards. -/
def Block.height (w : Weight) : Block → Nat
  | .leaf _ c => c.height w
  | .node _ f bs => w.block f.kind + Block.heightAll w bs

/-- The greatest height among some blocks. -/
def Block.heightAll (w : Weight) : List Block → Nat
  | [] => 0
  | b :: bs => max (b.height w) (Block.heightAll w bs)

end

/-- How many included pieces lie inside each other, at most. -/
def Block.inclusionDepth (b : Block) : Nat := b.height .inclusions

section Block

variable {w : Weight}

@[simp] lemma Block.height_leaf (h : Head) (c : Block.Leaf) :
    (Block.leaf h c).height w = c.height w := by
  simp [Block.height]

@[simp] lemma Block.height_node (h : Head) (f : Block.Frame) (bs : List Block) :
    (Block.node h f bs).height w = w.block f.kind + Block.heightAll w bs := by
  simp [Block.height]

@[simp] lemma Block.heightAll_nil : Block.heightAll w [] = 0 := by
  simp [Block.heightAll]

@[simp] lemma Block.heightAll_cons (b : Block) (bs : List Block) :
    Block.heightAll w (b :: bs) = max (b.height w) (Block.heightAll w bs) := by
  simp [Block.heightAll]

lemma Block.heightAll_le {bs : List Block} {n : Nat} :
    Block.heightAll w bs ≤ n ↔ ∀ b ∈ bs, b.height w ≤ n := by
  induction bs with
  | nil => simp
  | cons b bs ih => simp [ih]

@[simp] lemma Block.heightAll_append (bs ds : List Block) :
    Block.heightAll w (bs ++ ds) = max (Block.heightAll w bs) (Block.heightAll w ds) := by
  induction bs with
  | nil => simp
  | cons b bs ih => simp [ih, max_assoc]

/-- A tree of blocks has no height just when no token in it has any weight. -/
lemma Block.height_eq_zero {b : Block} :
    b.height w = 0 ↔
      (∀ n ∈ b.nodes, w.block n.kind = 0) ∧ ∀ t ∈ b.inlineNodes, w.inline t.kind = 0 := by
  induction b using Block.induction with
  | leaf h c =>
    have hrows : Inline.heightRows w c.inlines = 0 ↔
        ∀ ts ∈ c.inlines, ∀ u ∈ ts, ∀ t ∈ u.nodes, w.inline t.kind = 0 := by
      rw [← Nat.le_zero, Inline.heightRows_le]
      refine forall₂_congr fun ts _ => ?_
      rw [Inline.heightAll_le]
      exact forall₂_congr fun u _ => by rw [Nat.le_zero, Inline.height_eq_zero]
    rw [Block.forall_inlineNodes_leaf, Block.height_leaf, Block.Leaf.height, Nat.add_eq_zero_iff,
      hrows]
    simp [Block.kind]
  | node h f bs ih =>
    have hall : Block.heightAll w bs = 0 ↔
        ∀ b ∈ bs, (∀ n ∈ b.nodes, w.block n.kind = 0) ∧
          ∀ t ∈ b.inlineNodes, w.inline t.kind = 0 := by
      rw [← Nat.le_zero, Block.heightAll_le]
      exact forall₂_congr fun b hb => by rw [Nat.le_zero, ih b hb]
    rw [Block.forall_nodes_node, Block.forall_inlineNodes_node, Block.height_node,
      Nat.add_eq_zero_iff, hall]
    simp only [forall_and, and_assoc, Block.kind]

end Block

/-! ## Directives and inclusions -/

/-- No directive is left at any depth of a tree without height. -/
lemma Block.directives_height_eq_zero {b : Block} :
    b.height .directives = 0 ↔
      (∀ n ∈ b.nodes, n.kind ≠ .directive) ∧ ∀ t ∈ b.inlineNodes, t.kind ≠ .directive := by
  simp [Block.height_eq_zero, Weight.directives]

/-- Directives are leaves, so a frame weighs the same whatever they weigh. -/
lemma Weight.onDirectives_inlineFrame (w : Weight) (m : Nat) (f : Inline.Frame) :
    (w.onDirectives m).inline f.kind = w.inline f.kind := by
  have hkind : f.kind ≠ .directive := by cases f <;> simp [Inline.Frame.kind]
  simp only [Weight.onDirectives, if_neg hkind]

lemma Weight.onDirectives_blockFrame (w : Weight) (m : Nat) (f : Block.Frame) :
    (w.onDirectives m).block f.kind = w.block f.kind := by
  have hkind : f.kind ≠ .directive := by cases f <;> simp [Block.Frame.kind]
  simp only [Weight.onDirectives, if_neg hkind]

/-- However much each directive weighs, directives never lie inside each other. -/
lemma Inline.height_onDirectives_le {w : Weight} {m : Nat} {t : Inline}
    (h : t.height w = 0) : t.height (w.onDirectives m) ≤ m := by
  induction t using Inline.induction with
  | leaf hd c =>
    rw [Inline.height_leaf] at h ⊢
    simp only [Weight.onDirectives]
    split
    next => exact le_rfl
    next => omega
  | node hd f ts ih =>
    rw [Inline.height_node] at h ⊢
    obtain ⟨hframe, hall⟩ := Nat.add_eq_zero_iff.1 h
    rw [Weight.onDirectives_inlineFrame, hframe, Nat.zero_add, Inline.heightAll_le]
    intro t ht
    exact ih t ht (Nat.le_zero.1 (Inline.heightAll_le.1 hall.le t ht))

lemma Block.height_onDirectives_le {w : Weight} {m : Nat} {b : Block} (h : b.height w = 0) :
    b.height (w.onDirectives m) ≤ m := by
  induction b using Block.induction with
  | leaf hd c =>
    rw [Block.height_leaf, Block.Leaf.height] at h ⊢
    by_cases hkind : c.kind = .directive
    · have hinlines : c.inlines = [] := by cases c <;> first | rfl | cases hkind
      simp [Weight.onDirectives, hkind, hinlines]
    · have hrows : Inline.heightRows w c.inlines ≤ 0 := by omega
      have hleaf : (w.onDirectives m).block c.kind = 0 := by
        simp only [Weight.onDirectives, if_neg hkind]
        omega
      rw [hleaf, Nat.zero_add, Inline.heightRows_le]
      intro ts hts
      rw [Inline.heightAll_le]
      intro t ht
      have hzero := Inline.heightAll_le.1 (Inline.heightRows_le.1 hrows ts hts) t ht
      exact Inline.height_onDirectives_le (Nat.le_zero.1 hzero)
  | node hd f bs ih =>
    rw [Block.height_node] at h ⊢
    obtain ⟨hframe, hall⟩ := Nat.add_eq_zero_iff.1 h
    rw [Weight.onDirectives_blockFrame, hframe, Nat.zero_add, Block.heightAll_le]
    intro b hb
    exact ih b hb (Nat.le_zero.1 (Block.heightAll_le.1 hall.le b hb))

end Docmark
