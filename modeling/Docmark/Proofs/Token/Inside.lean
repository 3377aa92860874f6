import Mathlib
import Docmark.Proofs.Token.Nodes

/-!
# Where a block stands

A block of a tree stands inside a number of frames: that of the root, and from there one on every
level down to the frame that holds it directly.  Which blocks may occur depends on these frames, so
what a tree may hold and where is stated for `Block.HasInside`, as what it may hold at all is stated
for the members of `Block.nodes`.
-/

namespace Docmark

/-- The frame of a block, if it is not a leaf. -/
def Block.frame? : Block → Option Block.Frame
  | .leaf _ _ => none
  | .node _ f _ => some f

/-- Whether a frame is an item of a list. -/
def Block.Frame.isItem : Block.Frame → Bool
  | .listItem _ _ => true
  | _ => false

lemma Block.Frame.exists_of_isItem {f : Block.Frame} (h : f.isItem = true) :
    ∃ checked loose, f = .listItem checked loose := by
  cases f with
  | listItem checked loose => exact ⟨checked, loose, rfl⟩
  | _ => cases h

/-- A block stands in a tree, inside the given frames, the outermost first. -/
inductive Block.HasInside : Block → List Block.Frame → Block → Prop
  | self (b : Block) : HasInside b [] b
  | child {h : Head} {f : Block.Frame} {bs : List Block} {b n : Block} {above : List Block.Frame}
      (hb : b ∈ bs) (hn : HasInside b above n) : HasInside (.node h f bs) (f :: above) n

namespace Block

variable {root n : Block} {above : List Frame}

lemma hasInside_leaf {h : Head} {c : Leaf} :
    (Block.leaf h c).HasInside above n ↔ above = [] ∧ n = .leaf h c := by
  constructor
  · rintro ⟨⟩
    exact ⟨rfl, rfl⟩
  · rintro ⟨rfl, rfl⟩
    exact .self _

lemma hasInside_node {h : Head} {f : Frame} {bs : List Block} :
    (Block.node h f bs).HasInside above n ↔ above = [] ∧ n = .node h f bs ∨
      ∃ b ∈ bs, ∃ inner, above = f :: inner ∧ b.HasInside inner n := by
  constructor
  · intro hn
    cases hn with
    | self => exact .inl ⟨rfl, rfl⟩
    | child hb hn => exact .inr ⟨_, hb, _, rfl, hn⟩
  · rintro (⟨rfl, rfl⟩ | ⟨b, hb, inner, rfl, hn⟩)
    · exact .self _
    · exact .child hb hn

/-- What stands in a block of a tree stands in the tree, inside the frames of both. -/
lemma HasInside.trans {m : Block} {inner : List Frame} (hn : root.HasInside above n)
    (hm : n.HasInside inner m) : root.HasInside (above ++ inner) m := by
  induction hn with
  | self => exact hm
  | child hb _ ih => exact .child hb (ih hm)

/-- Each of the frames that a block stands inside is that of a block around it. -/
lemma HasInside.exists_frame {outer inner : List Frame} {f : Frame}
    (h : root.HasInside (outer ++ f :: inner) n) :
    ∃ hd bs, root.HasInside outer (.node hd f bs) ∧ ∃ b ∈ bs, b.HasInside inner n := by
  induction outer generalizing root with
  | nil =>
    cases h with
    | child hb hn => exact ⟨_, _, .self _, _, hb, hn⟩
  | cons g outer ih =>
    cases h with
    | child hb hn =>
      obtain ⟨hd, bs, hframe, hinner⟩ := ih hn
      exact ⟨hd, bs, .child hb hframe, hinner⟩

/-- A block that stands inside some frames is held directly by a block with the last of them. -/
lemma HasInside.exists_parent {f : Frame} (h : root.HasInside (above ++ [f]) n) :
    ∃ hd bs, root.HasInside above (.node hd f bs) ∧ n ∈ bs := by
  obtain ⟨hd, bs, hparent, b, hb, hn⟩ := h.exists_frame
  cases hn
  exact ⟨hd, bs, hparent, hb⟩

lemma mem_nodes_iff : n ∈ root.nodes ↔ ∃ above, root.HasInside above n := by
  induction root using Block.induction with
  | leaf h c => simp [hasInside_leaf]
  | node h f bs ih =>
    rw [nodes_node, List.mem_cons, mem_nodesAll]
    constructor
    · rintro (rfl | ⟨b, hb, hn⟩)
      · exact ⟨[], .self _⟩
      · obtain ⟨above, hn⟩ := (ih b hb).1 hn
        exact ⟨f :: above, .child hb hn⟩
    · rintro ⟨above, hn⟩
      rcases hasInside_node.1 hn with ⟨-, rfl⟩ | ⟨b, hb, inner, -, hn⟩
      · exact .inl rfl
      · exact .inr ⟨b, hb, (ih b hb).2 ⟨inner, hn⟩⟩

/-! ## All places in a tree -/

mutual

/-- Every block of a tree with the frames that it stands inside, parents first. -/
def placed : Block → List (List Frame × Block)
  | .leaf h c => [([], .leaf h c)]
  | .node h f bs => ([], .node h f bs) :: (placedAll bs).map fun p => (f :: p.1, p.2)

/-- Every block of some trees with the frames that it stands inside. -/
def placedAll : List Block → List (List Frame × Block)
  | [] => []
  | b :: bs => b.placed ++ placedAll bs

end

lemma mem_placedAll {p : List Frame × Block} {bs : List Block} :
    p ∈ placedAll bs ↔ ∃ b ∈ bs, p ∈ b.placed := by
  induction bs with
  | nil => simp [placedAll]
  | cons b bs ih => simp [placedAll, ih]

lemma mem_placed {p : List Frame × Block} : p ∈ root.placed ↔ root.HasInside p.1 p.2 := by
  obtain ⟨above, n⟩ := p
  induction root using Block.induction generalizing above with
  | leaf h c => simp [placed, hasInside_leaf]
  | node h f bs ih =>
    rw [placed, hasInside_node, List.mem_cons, Prod.mk.injEq, List.mem_map]
    refine or_congr_right ⟨?_, ?_⟩
    · rintro ⟨⟨inner, m⟩, hmem, heq⟩
      cases heq
      obtain ⟨b, hb, hplaced⟩ := mem_placedAll.1 hmem
      exact ⟨b, hb, inner, rfl, (ih b hb inner).1 hplaced⟩
    · rintro ⟨b, hb, inner, rfl, hn⟩
      exact ⟨(inner, n), mem_placedAll.2 ⟨b, hb, (ih b hb inner).2 hn⟩, rfl⟩

/-- Whether some block of a tree has a property where it stands can be computed. -/
instance decidableExistsInside (root : Block) (P : List Frame → Block → Prop)
    [∀ above n, Decidable (P above n)] :
    Decidable (∃ above n, root.HasInside above n ∧ P above n) :=
  decidable_of_iff (∃ p ∈ root.placed, P p.1 p.2)
    ⟨fun ⟨p, hp, hP⟩ => ⟨p.1, p.2, mem_placed.1 hp, hP⟩,
      fun ⟨above, n, hn, hP⟩ => ⟨(above, n), mem_placed.2 hn, hP⟩⟩

/-- Whether every block of a tree has a property where it stands can be computed. -/
instance decidableForallInside (root : Block) (P : List Frame → Block → Prop)
    [∀ above n, Decidable (P above n)] :
    Decidable (∀ above n, root.HasInside above n → P above n) :=
  decidable_of_iff (∀ p ∈ root.placed, P p.1 p.2)
    ⟨fun h above n hn => h (above, n) (mem_placed.2 hn), fun h p hp => h p.1 p.2 (mem_placed.1 hp)⟩

end Block

end Docmark
