import Mathlib
import Docmark.Proofs.Container.Content

/-!
# Two passes, one tree

The second pass replaces pending blocks and leaves the tree as it is: whatever stands in a tree
after it stood there before, inside the same frames, pending or not (`Block.HasInside.of_resolve`).
So where a block may stand is settled by the first pass alone.
-/

namespace Docmark

namespace Block

variable {read : InlineReader} {b b' : Block}

/-- A leaf is a completed pending block, or it was there before. -/
lemma exists_of_resolve_leaf {hd : Head} {c : Leaf} (h : b.resolve read = .ok (.leaf hd c)) :
    (∃ p, b = .leaf hd (.pending p) ∧ p.complete read hd.rule = .ok c) ∨
      b = .leaf hd c ∧ ∀ p, c ≠ .pending p := by
  cases b with
  | leaf hd' c' =>
    by_cases hp : ∃ p, c' = .pending p
    · obtain ⟨p, rfl⟩ := hp
      rw [Block.resolve] at h
      obtain ⟨l, hl, hleaf⟩ := exists_of_map_ok h
      cases hleaf
      exact .inl ⟨p, rfl, hl⟩
    · have hp : ∀ p, c' ≠ .pending p := fun p hc => hp ⟨p, hc⟩
      rw [Block.resolve.eq_2 read hd' c' hp] at h
      cases h
      exact .inr ⟨rfl, hp⟩
  | node hd' f bs =>
    rw [Block.resolve] at h
    obtain ⟨bs', -, hnode⟩ := exists_of_map_ok h
    cases hnode

/-- A frame was there before, around the same blocks one by one. -/
lemma exists_of_resolve_node {hd : Head} {f : Frame} {bs' : List Block}
    (h : b.resolve read = .ok (.node hd f bs')) :
    ∃ bs, b = .node hd f bs ∧ List.Forall₂ (fun b b' => b.resolve read = .ok b') bs bs' := by
  cases b with
  | leaf hd' c =>
    by_cases hp : ∃ p, c = .pending p
    · obtain ⟨p, rfl⟩ := hp
      rw [Block.resolve] at h
      obtain ⟨l, -, hleaf⟩ := exists_of_map_ok h
      cases hleaf
    · rw [Block.resolve.eq_2 read hd' c fun p hc => hp ⟨p, hc⟩] at h
      cases h
  | node hd' f' bs =>
    rw [Block.resolve] at h
    obtain ⟨bs', hbs', hnode⟩ := exists_of_map_ok h
    cases hnode
    exact ⟨bs, rfl, resolveAll_forall₂ hbs'⟩

/-- **The second pass moves nothing.**  What stands in a completed tree is the completion of what
stood inside the same frames. -/
theorem HasInside.of_resolve {above : List Frame} {n' : Block} (hn : b'.HasInside above n')
    (h : b.resolve read = .ok b') : ∃ n, b.HasInside above n ∧ n.resolve read = .ok n' := by
  induction hn generalizing b with
  | self => exact ⟨b, .self b, h⟩
  | child hmem _ ih =>
    obtain ⟨bs, rfl, hbs⟩ := exists_of_resolve_node h
    obtain ⟨d, hd, hres⟩ := exists_of_mem_forall₂ hbs _ hmem
    obtain ⟨n, hn, hn'⟩ := ih hres
    exact ⟨n, .child hd hn, hn'⟩

/-- Completing a block keeps its frame. -/
lemma frame?_of_resolve (h : b.resolve read = .ok b') : b'.frame? = b.frame? := by
  cases b' with
  | leaf hd c =>
    obtain ⟨p, rfl, -⟩ | ⟨rfl, -⟩ := exists_of_resolve_leaf h <;> rfl
  | node hd f bs' =>
    obtain ⟨bs, rfl, -⟩ := exists_of_resolve_node h
    rfl

lemma map_frame?_of_resolve {bs bs' : List Block}
    (h : List.Forall₂ (fun b b' => b.resolve read = .ok b') bs bs') :
    bs'.map Block.frame? = bs.map Block.frame? := by
  induction h with
  | nil => rfl
  | cons hres _ ih => rw [List.map_cons, List.map_cons, frame?_of_resolve hres, ih]

lemma gathers_of_resolve (h : b.resolve read = .ok b') : b'.gathers = b.gathers := by
  cases b' with
  | leaf hd c =>
    obtain ⟨p, rfl, -⟩ | ⟨rfl, -⟩ := exists_of_resolve_leaf h <;> rfl
  | node hd f bs' =>
    obtain ⟨bs, rfl, -⟩ := exists_of_resolve_node h
    rfl

/-- Completing a block keeps whether it is a callout: none of them has to wait. -/
lemma isCallout_of_resolve (h : b.resolve read = .ok b') : isCallout b' = isCallout b := by
  cases b' with
  | leaf hd c =>
    obtain ⟨p, rfl, hc⟩ | ⟨rfl, -⟩ := exists_of_resolve_leaf h
    · obtain ⟨hkind, -⟩ := Pending.complete_leaf hc
      have hvideo : c.kind ≠ .video := by
        intro hvideo
        rw [hvideo] at hkind
        exact absurd hkind (by decide)
      have hpending : (Leaf.pending p).kind ≠ .video := by simp [Leaf.kind]
      simp [hvideo, hpending]
    · rfl
  | node hd f bs' =>
    obtain ⟨bs, rfl, -⟩ := exists_of_resolve_node h
    simp

/-- The inline tokens of a completed tree are what the reader yields: the first pass makes none. -/
lemma exists_of_mem_inlineNodes {t : Inline} (h : b.resolve read = .ok b')
    (hb : ∀ hd c, .leaf hd c ∈ b.nodes → c.IsScanned) (ht : t ∈ b'.inlineNodes) :
    ∃ scope text origin ts, read scope text origin = .ok ts ∧ ∃ u ∈ ts, t ∈ u.nodes := by
  simp only [inlineNodes, List.mem_flatMap, Inline.mem_nodesAll] at ht
  obtain ⟨n', hn', ts, hts, u, hu, htu⟩ := ht
  obtain ⟨above, hn'⟩ := mem_nodes_iff.1 hn'
  obtain ⟨n, hn, hres⟩ := hn'.of_resolve h
  cases n' with
  | node => simp [inlines] at hts
  | leaf hd c =>
    obtain ⟨p, rfl, hc⟩ | ⟨rfl, hp⟩ := exists_of_resolve_leaf hres
    · obtain ⟨-, hread⟩ := Pending.complete_leaf hc
      obtain ⟨text, htext⟩ := hread ts hts
      exact ⟨_, text, _, ts, htext, u, hu, htu⟩
    · obtain ⟨-, hnone⟩ := (hb hd c (mem_nodes_iff.2 ⟨above, hn⟩)).isRead (h := hd) hp
      rw [inlines, hnone] at hts
      cases hts

end Block

/-- A document that was read is the completion of the blocks of the first pass, under one root. -/
lemma exists_of_readWith {rules : RuleSet} {defs : Definitions} {scope : Scope} {text : Text}
    {root : Block} (h : (readWith rules defs scope text).1 = .ok root) :
    ∃ bs, (scanBlocks rules scope text Point.start).tokens = bs ∧
      (Block.ofDocument text bs).resolve (readInlines rules (defs.addBlocks bs)) = .ok root := by
  obtain ⟨bs, bs', hbs, hbs', rfl⟩ := readWith_ok h
  refine ⟨bs, (Run.tokens_of_toExcept hbs).2, ?_⟩
  rw [Block.ofDocument, Block.resolve, hbs']
  rfl

/-- The inline tokens of a document are what the second pass reads. -/
lemma exists_read_of_mem_inlineNodes {rules : RuleSet} (hrules : rules.IsStandard)
    {defs : Definitions} {scope : Scope} {text : Text} {root : Block}
    (h : (readWith rules defs scope text).1 = .ok root) {t : Inline} (ht : t ∈ root.inlineNodes) :
    ∃ defs' scope' text' origin ts, readInlines rules defs' scope' text' origin = .ok ts ∧
      ∃ u ∈ ts, t ∈ u.nodes := by
  obtain ⟨bs, hbs, hres⟩ := exists_of_readWith h
  have hscanned : ∀ hd c, .leaf hd c ∈ (Block.ofDocument text bs).nodes → c.IsScanned := by
    intro hd c hmem
    rw [Block.ofDocument, Block.nodes_node, List.mem_cons, Block.mem_nodesAll] at hmem
    rcases hmem with hroot | ⟨b, hb, hmem⟩
    · cases hroot
    · exact scanBlocks_isScanned hrules scope text Point.start b (hbs ▸ hb) _ hmem
  exact ⟨_, Block.exists_of_mem_inlineNodes hres hscanned ht⟩

/-- Whether the tree of a text has a property can be computed. -/
instance decidableExistsRead (rules : RuleSet) (defs : Definitions) (scope : Scope) (text : Text)
    (P : Block → Prop) [DecidablePred P] :
    Decidable (∃ root, (readWith rules defs scope text).1 = .ok root ∧ P root) :=
  match (readWith rules defs scope text).1 with
  | .ok root => decidable_of_iff (P root)
      ⟨fun hP => ⟨root, rfl, hP⟩, fun ⟨_, hroot, hP⟩ => Except.ok.inj hroot ▸ hP⟩
  | .error _ => .isFalse fun ⟨_, hroot, _⟩ => nomatch hroot

end Docmark
