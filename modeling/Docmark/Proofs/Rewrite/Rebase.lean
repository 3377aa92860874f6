import Mathlib
import Docmark.Proofs.Token.Nodes
import Docmark.Rewrite.LinkRebase

/-!
# Rebased links

Rebasing a tree is a map over the targets of its links and images: the pass succeeds, keeps every
other token as it is, and leaves the journal alone.
-/

namespace Docmark

/-! ## Maps over link targets -/

/-- The leaf with the target of an image replaced. -/
def Inline.Leaf.mapTargets (f : Text → Text) : Inline.Leaf → Inline.Leaf
  | .image src title alt => .image (f src) title alt
  | c => c

/-- The frame with the target of a link replaced. -/
def Inline.Frame.mapTargets (f : Text → Text) : Inline.Frame → Inline.Frame
  | .link href title => .link (f href) title
  | fr => fr

mutual

/-- The token with the targets of all links and images in it replaced. -/
def Inline.mapTargets (f : Text → Text) : Inline → Inline
  | .leaf h c => .leaf h (c.mapTargets f)
  | .node h fr ts => .node h (fr.mapTargets f) (Inline.mapTargetsAll f ts)

/-- The tokens with the targets of all links and images in them replaced. -/
def Inline.mapTargetsAll (f : Text → Text) : List Inline → List Inline
  | [] => []
  | t :: ts => t.mapTargets f :: Inline.mapTargetsAll f ts

end

mutual

/-- The block with the targets of all links and images in it replaced. -/
def Block.mapTargets (f : Text → Text) : Block → Block
  | .leaf h c => .leaf h (c.mapInlines (Inline.mapTargetsAll f))
  | .node h fr bs => .node h fr (Block.mapTargetsAll f bs)

/-- The blocks with the targets of all links and images in them replaced. -/
def Block.mapTargetsAll (f : Text → Text) : List Block → List Block
  | [] => []
  | b :: bs => b.mapTargets f :: Block.mapTargetsAll f bs

end

section MapTargets

variable (f : Text → Text)

@[simp] lemma Inline.mapTargets_leaf (h : Head) (c : Inline.Leaf) :
    (Inline.leaf h c).mapTargets f = .leaf h (c.mapTargets f) := by
  simp [Inline.mapTargets]

@[simp] lemma Inline.mapTargets_node (h : Head) (fr : Inline.Frame) (ts : List Inline) :
    (Inline.node h fr ts).mapTargets f = .node h (fr.mapTargets f) (Inline.mapTargetsAll f ts) := by
  simp [Inline.mapTargets]

lemma Inline.mapTargetsAll_eq_map (ts : List Inline) :
    Inline.mapTargetsAll f ts = ts.map (Inline.mapTargets f) := by
  induction ts with
  | nil => simp [Inline.mapTargetsAll]
  | cons t ts ih => simp [Inline.mapTargetsAll, ih]

@[simp] lemma Block.mapTargets_leaf (h : Head) (c : Block.Leaf) :
    (Block.leaf h c).mapTargets f = .leaf h (c.mapInlines (Inline.mapTargetsAll f)) := by
  simp [Block.mapTargets]

@[simp] lemma Block.mapTargets_node (h : Head) (fr : Block.Frame) (bs : List Block) :
    (Block.node h fr bs).mapTargets f = .node h fr (Block.mapTargetsAll f bs) := by
  simp [Block.mapTargets]

lemma Block.mapTargetsAll_eq_map (bs : List Block) :
    Block.mapTargetsAll f bs = bs.map (Block.mapTargets f) := by
  induction bs with
  | nil => simp [Block.mapTargetsAll]
  | cons b bs ih => simp [Block.mapTargetsAll, ih]

lemma Block.Leaf.inlines_mapInlines (g : List Inline → List Inline) (c : Block.Leaf) :
    (c.mapInlines g).inlines = c.inlines.map g := by
  cases c <;> simp [Block.Leaf.mapInlines, Block.Leaf.inlines, List.map_flatten]

/-- The tokens of a tree with other targets are the tokens of the tree, with other targets. -/
lemma Inline.nodes_mapTargets (t : Inline) :
    (t.mapTargets f).nodes = t.nodes.map (Inline.mapTargets f) := by
  induction t using Inline.induction with
  | leaf h c => simp
  | node h fr ts ih =>
    rw [Inline.mapTargets_node, Inline.nodes_node, Inline.nodes_node, List.map_cons,
      Inline.mapTargets_node, Inline.mapTargetsAll_eq_map, Inline.nodesAll_eq_flatMap,
      Inline.nodesAll_eq_flatMap, List.flatMap_map, List.map_flatMap]
    exact congrArg _ (List.flatMap_congr fun t ht => ih t ht)

lemma Inline.nodesAll_mapTargets (ts : List Inline) :
    Inline.nodesAll (Inline.mapTargetsAll f ts) =
      (Inline.nodesAll ts).map (Inline.mapTargets f) := by
  rw [Inline.mapTargetsAll_eq_map, Inline.nodesAll_eq_flatMap, Inline.nodesAll_eq_flatMap,
    List.flatMap_map, List.map_flatMap]
  exact List.flatMap_congr fun t _ => Inline.nodes_mapTargets f t

lemma Block.nodes_mapTargets (b : Block) :
    (b.mapTargets f).nodes = b.nodes.map (Block.mapTargets f) := by
  induction b using Block.induction with
  | leaf h c => simp
  | node h fr bs ih =>
    rw [Block.mapTargets_node, Block.nodes_node, Block.nodes_node, List.map_cons,
      Block.mapTargets_node, Block.mapTargetsAll_eq_map, Block.nodesAll_eq_flatMap,
      Block.nodesAll_eq_flatMap, List.flatMap_map, List.map_flatMap]
    exact congrArg _ (List.flatMap_congr fun b hb => ih b hb)

lemma Block.inlineNodes_mapTargets (b : Block) :
    (b.mapTargets f).inlineNodes = b.inlineNodes.map (Inline.mapTargets f) := by
  have hown (n : Block) : (n.mapTargets f).inlines.flatMap Inline.nodesAll =
      (n.inlines.flatMap Inline.nodesAll).map (Inline.mapTargets f) := by
    cases n with
    | leaf h c =>
      rw [Block.mapTargets_leaf, Block.inlines, Block.inlines, Block.Leaf.inlines_mapInlines,
        List.flatMap_map, List.map_flatMap]
      exact List.flatMap_congr fun ts _ => Inline.nodesAll_mapTargets f ts
    | node h fr bs => simp [Block.inlines]
  rw [Block.inlineNodes, Block.inlineNodes, Block.nodes_mapTargets, List.flatMap_map,
    List.map_flatMap]
  exact List.flatMap_congr fun n _ => hown n

end MapTargets

/-! ## The pass -/

namespace LinkRebase

variable (r : LinkRebase) (file : Option Path)

lemma visitInlines_of {ts : List Inline}
    (h : ∀ t ∈ ts, r.rewriter.visitInline file t = pure (some (t.mapTargets r.apply))) :
    r.rewriter.visitInlines file ts = pure (Inline.mapTargetsAll r.apply ts) := by
  induction ts with
  | nil => rw [Rewriter.visitInlines, Inline.mapTargetsAll]
  | cons t ts ih =>
    rw [Rewriter.visitInlines, h t List.mem_cons_self, pure_bind,
      ih fun u hu => h u (List.mem_cons_of_mem _ hu), pure_bind, Inline.mapTargetsAll]
    rfl

lemma visitInline_eq (t : Inline) :
    r.rewriter.visitInline file t = pure (some (t.mapTargets r.apply)) := by
  induction t using Inline.induction with
  | leaf h c =>
    rw [Rewriter.visitInline]
    cases c <;> rfl
  | node h fr ts ih =>
    rw [Rewriter.visitInline, visitInlines_of r file ih, pure_bind]
    rw [Inline.mapTargets_node]
    cases fr <;> rfl

lemma visitInlines_eq (ts : List Inline) :
    r.rewriter.visitInlines file ts = pure (Inline.mapTargetsAll r.apply ts) :=
  visitInlines_of r file fun t _ => visitInline_eq r file t

lemma visitRow_eq (row : List (List Inline)) :
    row.mapM (r.rewriter.visitInlines file) = pure (row.map (Inline.mapTargetsAll r.apply)) := by
  have hpure : r.rewriter.visitInlines file =
      fun ts => pure (Inline.mapTargetsAll r.apply ts) := funext (visitInlines_eq r file)
  rw [hpure, List.mapM_pure]

lemma visitLeaf_eq (c : Block.Leaf) :
    r.rewriter.visitLeaf file c = pure (c.mapInlines (Inline.mapTargetsAll r.apply)) := by
  cases c with
  | heading depth id content => rw [Rewriter.visitLeaf, visitInlines_eq, map_pure]; rfl
  | paragraph content => rw [Rewriter.visitLeaf, visitInlines_eq, map_pure]; rfl
  | text content => rw [Rewriter.visitLeaf, visitInlines_eq, map_pure]; rfl
  | table align header rows =>
    have hrows : (fun row : List (List Inline) => row.mapM (r.rewriter.visitInlines file)) =
        fun row => pure (row.map (Inline.mapTargetsAll r.apply)) := funext (visitRow_eq r file)
    rw [Rewriter.visitLeaf, visitRow_eq, pure_bind, hrows, List.mapM_pure, pure_bind]
    rfl
  | _ => rfl

lemma visitBlocks_of {bs : List Block}
    (h : ∀ b ∈ bs, r.rewriter.visitBlock file b = pure (some (b.mapTargets r.apply))) :
    r.rewriter.visitBlocks file bs = pure (Block.mapTargetsAll r.apply bs) := by
  induction bs with
  | nil => rw [Rewriter.visitBlocks, Block.mapTargetsAll]
  | cons b bs ih =>
    rw [Rewriter.visitBlocks, h b List.mem_cons_self, pure_bind,
      ih fun d hd => h d (List.mem_cons_of_mem _ hd), pure_bind, Block.mapTargetsAll]
    rfl

lemma visitBlock_eq (b : Block) :
    r.rewriter.visitBlock file b = pure (some (b.mapTargets r.apply)) := by
  induction b using Block.induction with
  | leaf h c =>
    rw [Rewriter.visitBlock, visitLeaf_eq, pure_bind, Block.mapTargets_leaf]
    rfl
  | node h fr bs ih =>
    rw [Rewriter.visitBlock, visitBlocks_of r file ih, pure_bind, Block.mapTargets_node]
    rfl

lemma visitContents_eq (b : Block) :
    r.rewriter.visitContents file b = pure (b.mapTargets r.apply) := by
  cases b with
  | leaf h c =>
    rw [Rewriter.visitContents, visitLeaf_eq, map_pure, Block.mapTargets_leaf]
  | node h fr bs =>
    rw [Rewriter.visitContents, visitBlocks_of r file fun b _ => visitBlock_eq r file b, map_pure,
      Block.mapTargets_node]

/-- **Rebasing replaces targets.**  The pass succeeds with the tree in which every target of a link
or an image has its new form, and leaves the journal alone. -/
theorem rewriter_pass (root : Block) :
    r.rewriter.pass file root = pure (root.mapTargets r.apply) := by
  have hvisit : r.rewriter.visit file root = pure (some (root.mapTargets r.apply)) := by
    have hcontents := visitContents_eq r file root
    show r.rewriter.visitContents file root >>= (fun root => pure (some root)) = _
    rw [hcontents, pure_bind]
  funext j
  simp only [Rewriter.pass, hvisit]
  rfl

end LinkRebase

end Docmark
