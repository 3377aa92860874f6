import Mathlib
import Docmark.Proofs.Token.Height
import Docmark.Proofs.Token.Walk

/-!
# Branches of a tree

A branch leads from the root of a tree down to one of its tokens, from each token to one directly
inside it: through containers to a leaf, through the inline sequences of the leaf, and on through
inline frames.  The weight along a branch is at most the height of the tree, and on some branch it
is as much.
-/

namespace Docmark

/-- The tokens on a way down an inline tree, from its root. -/
inductive Inline.HasBranch : Inline → List Token → Prop
  | stop (t : Inline) : HasBranch t [.inline t]
  | down {h : Head} {f : Inline.Frame} {ts : List Inline} {t : Inline} {branch : List Token}
      (ht : t ∈ ts) (hbranch : HasBranch t branch) :
      HasBranch (.node h f ts) (.inline (.node h f ts) :: branch)

/-- The tokens on a way down a tree of blocks and into the inline trees of its leaves, from its
root. -/
inductive Block.HasBranch : Block → List Token → Prop
  | stop (b : Block) : HasBranch b [.block b]
  | down {h : Head} {f : Block.Frame} {bs : List Block} {b : Block} {branch : List Token}
      (hb : b ∈ bs) (hbranch : HasBranch b branch) :
      HasBranch (.node h f bs) (.block (.node h f bs) :: branch)
  | into {h : Head} {c : Block.Leaf} {ts : List Inline} {t : Inline} {branch : List Token}
      (hts : ts ∈ c.inlines) (ht : t ∈ ts) (hbranch : t.HasBranch branch) :
      HasBranch (.leaf h c) (.block (.leaf h c) :: branch)

/-- The weight of a token by itself. -/
def Weight.ofToken (w : Weight) : Token → Nat
  | .block b => w.block b.kind
  | .inline t => w.inline t.kind

variable {w : Weight} {branch : List Token}

/-- A weight that is one on some tokens and nothing on all others counts them. -/
lemma Weight.countP_eq_sum {p : Token → Bool} (h : ∀ x, w.ofToken x = (p x).toNat)
    (branch : List Token) : branch.countP p = (branch.map w.ofToken).sum := by
  induction branch with
  | nil => rfl
  | cons x branch ih =>
    rw [List.countP_cons, List.map_cons, List.sum_cons, ih, h x, Nat.add_comm]
    cases p x <;> rfl

lemma Inline.HasBranch.sum_le {t : Inline} (h : t.HasBranch branch) :
    (branch.map w.ofToken).sum ≤ t.height w := by
  induction h with
  | stop t =>
    cases t with
    | leaf h c => simp [Weight.ofToken, Inline.kind]
    | node h f ts => simp [Weight.ofToken, Inline.kind]
  | down ht _ ih =>
    rw [List.map_cons, List.sum_cons, Inline.height_node]
    exact Nat.add_le_add_left (ih.trans (Inline.heightAll_le.1 le_rfl _ ht)) _

/-- No branch weighs more than its tree is high. -/
lemma Block.HasBranch.sum_le {b : Block} (h : b.HasBranch branch) :
    (branch.map w.ofToken).sum ≤ b.height w := by
  induction h with
  | stop b =>
    cases b with
    | leaf h c => simp [Weight.ofToken, Block.kind, Block.Leaf.height]
    | node h f bs => simp [Weight.ofToken, Block.kind]
  | down hb _ ih =>
    rw [List.map_cons, List.sum_cons, Block.height_node]
    exact Nat.add_le_add_left (ih.trans (Block.heightAll_le.1 le_rfl _ hb)) _
  | into hts ht hbranch =>
    have hrow := Inline.heightRows_le.1 (le_refl (Inline.heightRows w _)) _ hts
    have htoken := (Inline.heightAll_le.1 hrow) _ ht
    rw [List.map_cons, List.sum_cons, Block.height_leaf, Block.Leaf.height]
    exact Nat.add_le_add_left (hbranch.sum_le.trans htoken) _

/-! ## The heaviest branch -/

/-- The greatest of some numbers is one of them, unless it is zero. -/
lemma foldr_max_mem {ns : List Nat} (h : 0 < ns.foldr max 0) : ns.foldr max 0 ∈ ns := by
  induction ns with
  | nil => simp at h
  | cons n ns ih =>
    rw [List.foldr_cons] at h ⊢
    rcases le_total (ns.foldr max 0) n with hle | hle
    · rw [max_eq_left hle]
      exact List.mem_cons_self
    · rw [max_eq_right hle] at h ⊢
      exact List.mem_cons_of_mem _ (ih h)

lemma Inline.heightAll_eq_foldr (w : Weight) (ts : List Inline) :
    Inline.heightAll w ts = (ts.map (Inline.height w)).foldr max 0 := by
  induction ts with
  | nil => simp
  | cons t ts ih => simp [ih]

lemma Block.heightAll_eq_foldr (w : Weight) (bs : List Block) :
    Block.heightAll w bs = (bs.map (Block.height w)).foldr max 0 := by
  induction bs with
  | nil => simp
  | cons b bs ih => simp [ih]

lemma Inline.exists_branch (w : Weight) (t : Inline) :
    ∃ branch, t.HasBranch branch ∧ (branch.map w.ofToken).sum = t.height w := by
  induction t using Inline.induction with
  | leaf h c => exact ⟨_, .stop _, by simp [Weight.ofToken, Inline.kind]⟩
  | node h f ts ih =>
    rcases Nat.eq_zero_or_pos (Inline.heightAll w ts) with hzero | hpos
    · exact ⟨_, .stop _, by simp [Weight.ofToken, Inline.kind, hzero]⟩
    · rw [Inline.heightAll_eq_foldr] at hpos
      obtain ⟨t, ht, heq⟩ := List.mem_map.1 (foldr_max_mem hpos)
      obtain ⟨branch, hbranch, hsum⟩ := ih t ht
      refine ⟨_, .down ht hbranch, ?_⟩
      rw [List.map_cons, List.sum_cons, Inline.height_node, hsum, heq, Inline.heightAll_eq_foldr]
      rfl

/-- Some branch weighs as much as its tree is high. -/
lemma Block.exists_branch (w : Weight) (b : Block) :
    ∃ branch, b.HasBranch branch ∧ (branch.map w.ofToken).sum = b.height w := by
  induction b using Block.induction with
  | leaf h c =>
    rcases Nat.eq_zero_or_pos (Inline.heightRows w c.inlines) with hzero | hpos
    · exact ⟨_, .stop _, by simp [Weight.ofToken, Block.kind, Block.Leaf.height, hzero]⟩
    · obtain ⟨ts, hts, hrow⟩ := List.mem_map.1 (foldr_max_mem hpos)
      have hts_pos : 0 < Inline.heightAll w ts := hrow.symm ▸ hpos
      rw [Inline.heightAll_eq_foldr] at hts_pos
      obtain ⟨t, ht, heq⟩ := List.mem_map.1 (foldr_max_mem hts_pos)
      obtain ⟨branch, hbranch, hsum⟩ := t.exists_branch w
      refine ⟨_, .into hts ht hbranch, ?_⟩
      rw [List.map_cons, List.sum_cons, Block.height_leaf, Block.Leaf.height, hsum, heq,
        ← Inline.heightAll_eq_foldr, hrow]
      rfl
  | node h f bs ih =>
    rcases Nat.eq_zero_or_pos (Block.heightAll w bs) with hzero | hpos
    · exact ⟨_, .stop _, by simp [Weight.ofToken, Block.kind, hzero]⟩
    · rw [Block.heightAll_eq_foldr] at hpos
      obtain ⟨b, hb, heq⟩ := List.mem_map.1 (foldr_max_mem hpos)
      obtain ⟨branch, hbranch, hsum⟩ := ih b hb
      refine ⟨_, .down hb hbranch, ?_⟩
      rw [List.map_cons, List.sum_cons, Block.height_node, hsum, heq, Block.heightAll_eq_foldr]
      rfl

end Docmark
