import Mathlib
import Docmark.Fault
import Docmark.Proofs.Token.Nodes

/-!
# The points of a tree

The points that are found in a tree: the ends of the span of every token, and the places from which
pending blocks are to be read.  `Block.mapPoints` replaces each of them and leaves everything else
as it is.  An outcome has points in it too, those of the tokens or those of the fault.

## Main results

* `Block.pending_of_mapPoints_eq` — a tree that does not change has no pending origin that would.
* `mapM_mapOutcome` — steps whose outcomes are replaced, one after the other.
-/

namespace Docmark

/-! ## Tokens -/

/-- A span with its ends replaced. -/
def Span.mapPoints (f : Point → Point) (s : Span) : Span := ⟨f s.start, f s.stop⟩

/-- A head with the ends of its span replaced. -/
def Head.mapPoints (f : Point → Point) (h : Head) : Head := ⟨h.rule, h.span.mapPoints f⟩

mutual

/-- An inline token with all points in it replaced. -/
def Inline.mapPoints (f : Point → Point) : Inline → Inline
  | .leaf h c => .leaf (h.mapPoints f) c
  | .node h frame ts => .node (h.mapPoints f) frame (Inline.mapPointsAll f ts)

/-- Inline tokens with all points in them replaced. -/
def Inline.mapPointsAll (f : Point → Point) : List Inline → List Inline
  | [] => []
  | t :: ts => t.mapPoints f :: Inline.mapPointsAll f ts

end

/-- A leaf with all points in it replaced: those of its inlines, or the place from which it is to be
read. -/
def Block.Leaf.mapPoints (f : Point → Point) : Block.Leaf → Block.Leaf
  | .pending p => .pending { p with origin := f p.origin }
  | c => c.mapInlines (List.map (Inline.mapPoints f))

mutual

/-- A block with all points in it replaced. -/
def Block.mapPoints (f : Point → Point) : Block → Block
  | .leaf h c => .leaf (h.mapPoints f) (c.mapPoints f)
  | .node h frame bs => .node (h.mapPoints f) frame (Block.mapPointsAll f bs)

/-- Blocks with all points in them replaced. -/
def Block.mapPointsAll (f : Point → Point) : List Block → List Block
  | [] => []
  | b :: bs => b.mapPoints f :: Block.mapPointsAll f bs

end

section Tokens

variable (f : Point → Point)

namespace Inline

lemma mapPointsAll_eq_map (ts : List Inline) : mapPointsAll f ts = ts.map (mapPoints f) := by
  induction ts with
  | nil => rw [mapPointsAll, List.map_nil]
  | cons t ts ih => rw [mapPointsAll, ih, List.map_cons]

lemma mapPoints_leaf (h : Head) (c : Leaf) :
    (Inline.leaf h c).mapPoints f = .leaf (h.mapPoints f) c := by
  rw [mapPoints]

lemma mapPoints_node (h : Head) (frame : Frame) (ts : List Inline) :
    (Inline.node h frame ts).mapPoints f =
      .node (h.mapPoints f) frame (ts.map (mapPoints f)) := by
  rw [mapPoints, mapPointsAll_eq_map]

/-- A body with all points in it replaced. -/
def Body.mapPoints : Body → Body
  | .leaf c => .leaf c
  | .node frame ts => .node frame (ts.map (Inline.mapPoints f))

lemma ofBody_mapPoints (h : Head) (m : Body) :
    ofBody (h.mapPoints f) (m.mapPoints f) = (ofBody h m).mapPoints f := by
  cases m with
  | leaf c => rw [ofBody, mapPoints_leaf]; rfl
  | node frame ts => rw [ofBody, mapPoints_node]; rfl

end Inline

namespace Block

lemma mapPointsAll_eq_map (bs : List Block) : mapPointsAll f bs = bs.map (mapPoints f) := by
  induction bs with
  | nil => rw [mapPointsAll, List.map_nil]
  | cons b bs ih => rw [mapPointsAll, ih, List.map_cons]

lemma mapPoints_leaf (h : Head) (c : Leaf) :
    (Block.leaf h c).mapPoints f = .leaf (h.mapPoints f) (c.mapPoints f) := by
  rw [mapPoints]

lemma mapPoints_node (h : Head) (frame : Frame) (bs : List Block) :
    (Block.node h frame bs).mapPoints f =
      .node (h.mapPoints f) frame (bs.map (mapPoints f)) := by
  rw [mapPoints, mapPointsAll_eq_map]

/-- A body with all points in it replaced. -/
def Body.mapPoints : Body → Body
  | .leaf c => .leaf (c.mapPoints f)
  | .node frame bs => .node frame (bs.map (Block.mapPoints f))

lemma ofBody_mapPoints (h : Head) (m : Body) :
    ofBody (h.mapPoints f) (m.mapPoints f) = (ofBody h m).mapPoints f := by
  cases m with
  | leaf c => rw [ofBody, mapPoints_leaf]; rfl
  | node frame bs => rw [ofBody, mapPoints_node]; rfl

lemma span_mapPoints (b : Block) : (b.mapPoints f).span = b.span.mapPoints f := by
  cases b with
  | leaf h c => rw [mapPoints_leaf]; rfl
  | node h frame bs => rw [mapPoints_node]; rfl

/-- Where nothing changes when the points are replaced, neither does the origin of any pending
block. -/
lemma pending_of_mapPoints_eq {f : Point → Point} {b : Block} (hb : b.mapPoints f = b) :
    ∀ h p, Block.leaf h (.pending p) ∈ b.nodes → f p.origin = p.origin := by
  induction b using Block.induction with
  | leaf hd c =>
    intro h p hmem
    obtain ⟨rfl, rfl⟩ := Block.leaf.inj (List.mem_singleton.1 (Block.nodes_leaf _ _ ▸ hmem))
    rw [mapPoints_leaf] at hb
    exact congrArg Pending.origin (Leaf.pending.inj (Block.leaf.inj hb).2)
  | node hd frame bs ih =>
    intro h p hmem
    rw [mapPoints_node] at hb
    have hbs : bs.map (mapPoints f) = bs.map id := by
      rw [List.map_id]
      exact (Block.node.inj hb).2.2
    rw [Block.nodes_node, List.mem_cons, Block.mem_nodesAll] at hmem
    obtain heq | ⟨b, hmem, hp⟩ := hmem
    · cases heq
    · exact ih b hmem (List.map_inj_left.1 hbs b hmem) h p hp

end Block

end Tokens

/-! ## Outcomes -/

/-- A fault with its point replaced, if it has one. -/
def Fault.mapPoints (f : Point → Point) : Fault → Fault
  | .noRuleMatched snippet p => .noRuleMatched snippet (f p)
  | .stalledRule rule p => .stalledRule rule (f p)
  | e => e

lemma Fault.mapPoints_id (e : Fault) : e.mapPoints id = e := by
  cases e <;> rfl

/-- An outcome with all points replaced: `g` replaces those of a result. -/
def mapOutcome {α β : Type} (f : Point → Point) (g : α → β) : Except Fault α → Except Fault β
  | .error e => .error (e.mapPoints f)
  | .ok a => .ok (g a)

section Outcome

variable {α β γ δ : Type} (f : Point → Point) (g : α → β)

@[simp] lemma mapOutcome_ok (a : α) : mapOutcome f g (.ok a) = .ok (g a) := rfl

@[simp] lemma mapOutcome_error (e : Fault) :
    mapOutcome f g (.error e) = .error (e.mapPoints f) := rfl

/-- Where no point changes, only the result does. -/
lemma mapOutcome_id (x : Except Fault α) : mapOutcome id g x = x.map g := by
  cases x with
  | error e => rw [mapOutcome_error, e.mapPoints_id]; rfl
  | ok a => rfl

/-- What is made of a result goes along with the points. -/
lemma mapOutcome_map {k : α → γ} {k' : β → δ} {l : γ → δ} (h : ∀ a, k' (g a) = l (k a))
    (x : Except Fault α) : (mapOutcome f g x).map k' = mapOutcome f l (x.map k) := by
  cases x with
  | error e => rfl
  | ok a => exact congrArg Except.ok (h a)

lemma mapOutcome_bind {k : α → Except Fault γ} {k' : β → Except Fault δ} {l : γ → δ}
    (h : ∀ a, k' (g a) = mapOutcome f l (k a)) (x : Except Fault α) :
    (mapOutcome f g x >>= k') = mapOutcome f l (x >>= k) := by
  cases x with
  | error e => rfl
  | ok a => exact h a

/-- Steps with replaced points make a list with replaced points. -/
lemma mapM_mapOutcome (k : γ → Except Fault α) (cs : List γ) :
    (cs.mapM fun c => mapOutcome f g (k c)) = mapOutcome f (List.map g) (cs.mapM k) := by
  induction cs with
  | nil => rfl
  | cons c cs ih =>
    rw [List.mapM_cons, List.mapM_cons, ih]
    cases k c with
    | error e => rfl
    | ok a => cases cs.mapM k <;> rfl

end Outcome

end Docmark
