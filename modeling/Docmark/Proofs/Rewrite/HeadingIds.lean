import Mathlib
import Docmark.Proofs.Outcome
import Docmark.Proofs.Rewrite.Gentle
import Docmark.Proofs.Rewrite.Quiet

/-!
# Heading ids are unique

The rewriter that gives headings their ids keeps those in use, and gives none of them a second time:
an id that is taken gets a number behind it, and one of the numbers that are tried is free, since
more are tried than there are ids in use.  Which ids are given is a matter of the texts that they
are made from and of the order of these (`nameHeadings`); the walk over a tree does no more than
that for the headings in it.

A built document is put together from the trees of several files.  The ids of one of them are those
of the headings that are reached without entering included content.

## Main results

* `freeNumber_isLeast` — the search for a number ends, at the least one that makes a new id.
* `nameHeadings_nodup` — no id is given twice, whatever the texts are.
* `headingIdRewriter_pass` — the pass over a tree gives its headings these ids.
* `headingIdRewriter_pass_keeps` — the pass changes nothing where every heading has an id.
-/

namespace Docmark

/-! ## Free numbers -/

/-- The ids in use, without the numbers. -/
def UsedIds.taken (used : UsedIds) : List Text := used.map (·.1)

lemma lookup_isNone_iff {used : UsedIds} {id : Text} :
    (used.lookup id).isNone = true ↔ id ∉ used.taken := by
  rw [Option.isNone_iff_eq_none, List.lookup_eq_none_iff, UsedIds.taken, List.mem_map]
  constructor
  · rintro h ⟨p, hp, rfl⟩
    simpa using h p hp
  · intro h p hp
    exact bne_iff_ne.2 fun hid => h ⟨p, hp, hid.symm⟩

lemma numbered_injective (base : Text) : Function.Injective (numbered base) := by
  intro m n h
  have hdigits : (toString m).toList = (toString n).toList :=
    List.tail_eq_of_cons_eq (List.append_cancel_left h)
  exact Nat.repr_inj.1 (String.toList_inj.1 hdigits)

/-- **The search for a number ends.**  More numbers are tried than there are ids in use, so one of
them makes a new id, and the least of these is taken. -/
theorem freeNumber_isLeast (used : UsedIds) (base : Text) (last : Nat) :
    IsLeast {n | last < n ∧ numbered base n ∉ used.taken} (freeNumber used base last) := by
  let free (n : Nat) : Bool := (used.lookup (numbered base (last + 1 + n))).isNone
  have hfree (n : Nat) : free n = true ↔ numbered base (last + 1 + n) ∉ used.taken :=
    lookup_isNone_iff
  have htries : freeNumber used base last =
      (((List.range (used.length + 1)).find? free).map (last + 1 + ·)).getD
        (last + used.length + 1) := by
    simp only [freeNumber, List.find?_map]
    rfl
  cases hfind : (List.range (used.length + 1)).find? free with
  | some n =>
    rw [hfind, Option.map_some, Option.getD_some] at htries
    rw [htries]
    obtain ⟨hn, -, hbefore⟩ := List.find?_range_eq_some.1 hfind
    refine ⟨⟨by omega, (hfree n).1 hn⟩, fun m hm => ?_⟩
    obtain ⟨k, rfl⟩ : ∃ k, m = last + 1 + k := ⟨m - (last + 1), by have := hm.1; omega⟩
    by_contra hlt
    have hk := hbefore k (by omega)
    rw [Bool.not_eq_true', ← Bool.not_eq_true, hfree] at hk
    exact hk hm.2
  | none =>
    -- a list of different ids that are all in use cannot be longer than the list of these
    have htaken : (List.range (used.length + 1)).map (fun n => numbered base (last + 1 + n)) ⊆
        used.taken := by
      intro id hid
      obtain ⟨n, hn, rfl⟩ := List.mem_map.1 hid
      by_contra hnot
      exact List.find?_eq_none.1 hfind n hn ((hfree n).2 hnot)
    have hnodup : ((List.range (used.length + 1)).map
        fun n => numbered base (last + 1 + n)).Nodup :=
      List.nodup_range.map fun _ _ h => Nat.add_left_cancel (numbered_injective base h)
    have hlength := (hnodup.subperm htaken).length_le
    simp [UsedIds.taken] at hlength

/-! ## Ids that are given -/

/-- The ids that headings have one after the other, and the ids in use afterwards.  Of each heading
there is the id that it has already, if it has one, and the text that one is made from. -/
def nameHeadings (used : UsedIds) : List (Option Text × Text) → List Text × UsedIds
  | [] => ([], used)
  | (some id, _) :: headings =>
    let (ids, used) := nameHeadings used headings
    (id :: ids, used)
  | (none, base) :: headings =>
    let (id, used) := uniqueId used base
    let (ids, used) := nameHeadings used headings
    (id :: ids, used)

/-- One step: an id that is given was not in use before. -/
lemma uniqueId_fresh (used : UsedIds) (base : Text) : (uniqueId used base).1 ∉ used.taken := by
  cases hlookup : used.lookup base with
  | none =>
    simp only [uniqueId, hlookup]
    exact lookup_isNone_iff.1 (by rw [hlookup, Option.isNone_none])
  | some last =>
    simp only [uniqueId, hlookup]
    exact (freeNumber_isLeast used base last).1.2

/-- One step: an id that is given is in use afterwards, besides those that were. -/
lemma mem_taken_uniqueId {used : UsedIds} {base i : Text} :
    i ∈ (uniqueId used base).2.taken ↔ i = (uniqueId used base).1 ∨ i ∈ used.taken := by
  cases hlookup : used.lookup base with
  | none => simp [uniqueId, hlookup, UsedIds.taken]
  | some last =>
    have hbase : base ∈ used.taken := by
      by_contra hnot
      simp [Option.isNone_iff_eq_none.1 (lookup_isNone_iff.2 hnot)] at hlookup
    have hold : i = base → i ∈ used.taken := fun hi => hi ▸ hbase
    simp only [uniqueId, hlookup, UsedIds.taken, List.map_cons, List.mem_cons] at hold ⊢
    tauto

section NameHeadings

variable {used : UsedIds} {headings : List (Option Text × Text)}

/-- Where no heading has an id already, none of the ids that they get was in use before. -/
lemma nameHeadings_fresh (hnone : ∀ h ∈ headings, h.1 = none) {id : Text}
    (hid : id ∈ (nameHeadings used headings).1) : id ∉ used.taken := by
  induction headings generalizing used with
  | nil => cases hid
  | cons h headings ih =>
    obtain ⟨hfirst, hrest⟩ := List.forall_mem_cons.1 hnone
    obtain ⟨_, base⟩ := h
    obtain rfl : _ = none := hfirst
    rcases List.mem_cons.1 hid with rfl | hid
    · exact uniqueId_fresh used base
    · exact fun hused => ih hrest hid (mem_taken_uniqueId.2 (.inr hused))

/-- **No id is given twice**, whatever the texts are: each one is in use when the next is chosen. -/
theorem nameHeadings_nodup (hnone : ∀ h ∈ headings, h.1 = none) :
    (nameHeadings used headings).1.Nodup := by
  induction headings generalizing used with
  | nil => exact List.nodup_nil
  | cons h headings ih =>
    obtain ⟨hfirst, hrest⟩ := List.forall_mem_cons.1 hnone
    obtain ⟨_, base⟩ := h
    obtain rfl : _ = none := hfirst
    refine List.nodup_cons.2 ⟨fun hid => ?_, ih hrest⟩
    exact nameHeadings_fresh hrest hid (mem_taken_uniqueId.2 (.inl rfl))

lemma nameHeadings_append (headings' : List (Option Text × Text)) :
    nameHeadings used (headings ++ headings') =
      ((nameHeadings used headings).1 ++
          (nameHeadings (nameHeadings used headings).2 headings').1,
        (nameHeadings (nameHeadings used headings).2 headings').2) := by
  induction headings generalizing used with
  | nil => rfl
  | cons h headings ih =>
    obtain ⟨- | id, base⟩ := h <;> simp only [List.cons_append, nameHeadings, ih]

end NameHeadings

/-! ## Ids in a tree -/

/-- Every heading has an id, and no two have the same. -/
def IdsDiffer (ids : List (Option Text)) : Prop := ids.Nodup ∧ none ∉ ids

lemma IdsDiffer.nil : IdsDiffer [] := ⟨List.nodup_nil, List.not_mem_nil⟩

lemma IdsDiffer.sublist {ids ids' : List (Option Text)} (h : IdsDiffer ids)
    (hsub : ids'.Sublist ids) : IdsDiffer ids' :=
  ⟨h.1.sublist hsub, fun hnone => h.2 (hsub.subset hnone)⟩

lemma idsDiffer_map_some {ids : List Text} (h : ids.Nodup) : IdsDiffer (ids.map some) :=
  ⟨h.map (Option.some_injective _), by simp⟩

namespace Block

/-- The id of a heading, which may be missing. -/
def headingId? : Block → Option (Option Text)
  | .leaf _ (.heading _ id _) => some id
  | _ => none

/-- The ids of all headings in a tree, in order. -/
def headingIds (b : Block) : List (Option Text) := b.nodes.filterMap headingId?

/-- The id of a heading, which may be missing, and the text that one is made from: what a leading
anchor names, or what becomes of the heading's own text. -/
def heading? : Block → Option (Option Text × Text)
  | .leaf _ (.heading _ id content) =>
    some (id, ((leadingAnchor? content).getD (slugify (Inline.plainText content), content)).1)
  | _ => none

/-- All headings in a tree, in order. -/
def headings (b : Block) : List (Option Text × Text) := b.nodes.filterMap heading?

@[simp] lemma headingIds_leaf (h : Head) (c : Leaf) :
    (Block.leaf h c).headingIds = (Block.leaf h c).headingId?.toList := by
  rw [headingIds, nodes_leaf, List.filterMap_cons, List.filterMap_nil]
  cases (Block.leaf h c).headingId? <;> rfl

@[simp] lemma headingIds_node (h : Head) (f : Frame) (bs : List Block) :
    (Block.node h f bs).headingIds = bs.flatMap headingIds := by
  rw [headingIds, nodes_node, List.filterMap_cons_none rfl, nodesAll_eq_flatMap,
    List.filterMap_flatMap]
  rfl

@[simp] lemma headings_leaf (h : Head) (c : Leaf) :
    (Block.leaf h c).headings = (Block.leaf h c).heading?.toList := by
  rw [headings, nodes_leaf, List.filterMap_cons, List.filterMap_nil]
  cases (Block.leaf h c).heading? <;> rfl

@[simp] lemma headings_node (h : Head) (f : Frame) (bs : List Block) :
    (Block.node h f bs).headings = bs.flatMap headings := by
  rw [headings, nodes_node, List.filterMap_cons_none rfl, nodesAll_eq_flatMap,
    List.filterMap_flatMap]
  rfl

mutual

/-- The ids of the headings in a tree, without those in included content. -/
def ownHeadingIds : Block → List (Option Text)
  | .leaf h c => (Block.leaf h c).headingId?.toList
  | .node _ (.included _) _ => []
  | .node _ _ bs => ownHeadingIdsAll bs

/-- The ids of the headings in some trees, without those in included content. -/
def ownHeadingIdsAll : List Block → List (Option Text)
  | [] => []
  | b :: bs => b.ownHeadingIds ++ ownHeadingIdsAll bs

end

/-- Wherever one enters a tree, the headings that are reached without entering included content have
ids, and different ones. -/
def HasDistinctParts (b : Block) : Prop := ∀ n ∈ b.nodes, IdsDiffer (ownHeadingIdsAll n.children)

/-- The headings of a tree, and those of each content included in it, have different ids. -/
structure HasDistinctIds (b : Block) : Prop where
  own : IdsDiffer b.ownHeadingIds
  parts : b.HasDistinctParts

@[simp] lemma ownHeadingIds_leaf (h : Head) (c : Leaf) :
    (Block.leaf h c).ownHeadingIds = (Block.leaf h c).headingId?.toList := by
  rw [ownHeadingIds]

lemma ownHeadingIds_node (h : Head) (f : Frame) (bs : List Block) :
    (Block.node h f bs).ownHeadingIds = if f.kind = .included then [] else ownHeadingIdsAll bs := by
  cases f <;> simp [ownHeadingIds, Frame.kind]

lemma ownHeadingIdsAll_eq_flatMap (bs : List Block) :
    ownHeadingIdsAll bs = bs.flatMap ownHeadingIds := by
  induction bs with
  | nil => rw [ownHeadingIdsAll, List.flatMap_nil]
  | cons b bs ih => rw [ownHeadingIdsAll, List.flatMap_cons, ih]

lemma ownHeadingIdsAll_singleton (b : Block) : ownHeadingIdsAll [b] = b.ownHeadingIds := by
  rw [ownHeadingIdsAll, ownHeadingIdsAll, List.append_nil]

lemma hasDistinctParts_leaf (h : Head) (c : Leaf) : (Block.leaf h c).HasDistinctParts := by
  simp [HasDistinctParts, Block.children, ownHeadingIdsAll, IdsDiffer.nil]

lemma hasDistinctParts_node {h : Head} {f : Frame} {bs : List Block} :
    (Block.node h f bs).HasDistinctParts ↔
      IdsDiffer (ownHeadingIdsAll bs) ∧ ∀ b ∈ bs, b.HasDistinctParts :=
  Block.forall_nodes_node

/-- The ids outside of included content are some of all ids, in the same order. -/
lemma ownHeadingIds_sublist (b : Block) : b.ownHeadingIds.Sublist b.headingIds := by
  induction b using Block.induction with
  | leaf h c => rw [ownHeadingIds_leaf, headingIds_leaf]
  | node h f bs ih =>
    rw [ownHeadingIds_node, headingIds_node]
    split
    · exact List.nil_sublist _
    · rw [ownHeadingIdsAll_eq_flatMap]
      exact List.Sublist.flatMap_right bs ih

/-- The ids inside a block of a tree are some of all ids, in the same order. -/
lemma headingIds_sublist {n b : Block} (hn : n ∈ b.nodes) : n.headingIds.Sublist b.headingIds := by
  induction b using Block.induction with
  | leaf h c =>
    rw [nodes_leaf, List.mem_singleton] at hn
    rw [hn]
  | node h f bs ih =>
    rw [nodes_node, List.mem_cons, mem_nodesAll] at hn
    rcases hn with rfl | ⟨b, hb, hn⟩
    · exact List.Sublist.refl _
    · rw [headingIds_node]
      have hsub : ([b].flatMap headingIds).Sublist (bs.flatMap headingIds) :=
        (List.singleton_sublist.2 hb).flatMap headingIds
      rw [List.flatMap_singleton] at hsub
      exact (ih b hb hn).trans hsub

/-- Where all headings of a tree have different ids, those of each part have. -/
lemma HasDistinctIds.of_headingIds {b : Block} (h : IdsDiffer b.headingIds) :
    b.HasDistinctIds where
  own := h.sublist b.ownHeadingIds_sublist
  parts := by
    intro n hn
    refine h.sublist (List.Sublist.trans ?_ (headingIds_sublist hn))
    cases n with
    | leaf hd c => exact List.nil_sublist _
    | node hd f bs =>
      rw [Block.children, ownHeadingIdsAll_eq_flatMap, headingIds_node]
      exact List.Sublist.flatMap_right bs fun b _ => b.ownHeadingIds_sublist

end Block

/-! ## Rewriters of blocks -/

namespace Rewriter

variable {σ : Type} {w : Rewriter σ} {file : Option Path}

lemma visitInlines_keeps_of {ts : List Inline}
    (h : ∀ t ∈ ts, w.visitInline file t = pure (some t)) : w.visitInlines file ts = pure ts := by
  induction ts with
  | nil => rw [visitInlines]
  | cons t ts ih =>
    rw [visitInlines, h t List.mem_cons_self, pure_bind,
      ih fun u hu => h u (List.mem_cons_of_mem _ hu), pure_bind]
    rfl

variable (hw : ∀ t, w.inline file t = pure (some t))

include hw

lemma visitInline_keeps (t : Inline) : w.visitInline file t = pure (some t) := by
  induction t using Inline.induction with
  | leaf h c => rw [visitInline, hw]
  | node h f ts ih => rw [visitInline, visitInlines_keeps_of ih, pure_bind, hw]

lemma visitInlines_keeps : w.visitInlines file = pure :=
  funext fun _ => visitInlines_keeps_of fun t _ => visitInline_keeps hw t

/-- A rewriter that keeps all inline tokens keeps every leaf until it is offered the leaf itself. -/
lemma visitLeaf_keeps (c : Block.Leaf) : w.visitLeaf file c = pure c := by
  have hpure {α : Type} (as : List α) : as.mapM pure = (pure as : RewriteM σ (List α)) := by
    simpa using List.mapM_pure (m := RewriteM σ) (l := as) (f := id)
  cases c with
  | table align header rows =>
    have hrow : (fun row : List (List Inline) => row.mapM (w.visitInlines file)) = pure := by
      funext row
      rw [visitInlines_keeps hw, hpure]
    rw [visitLeaf, hrow, visitInlines_keeps hw, hpure, hpure, pure_bind, pure_bind]
  | heading | paragraph | text => rw [visitLeaf, visitInlines_keeps hw, map_pure]
  | _ => rfl

end Rewriter

/-! ## The pass -/

/-- No heading of a tree has an id yet. -/
def Block.LacksIds (b : Block) : Prop := ∀ n ∈ b.nodes, ∀ id ∈ n.headingId?, id = none

lemma Block.LacksIds.headings {b : Block} (hb : b.LacksIds) : ∀ h ∈ b.headings, h.1 = none := by
  intro h hmem
  obtain ⟨n, hn, hheading⟩ := List.mem_filterMap.1 hmem
  refine hb n hn h.1 ?_
  cases n with
  | node => cases hheading
  | leaf hd c =>
    cases c with
    | heading =>
      cases hheading
      rfl
    | _ => cases hheading

/-- Whatever ids are in use, an action of the rewriter gives ids to headings, and the blocks that it
yields are those with these headings. -/
def GivesIds {α : Type} (a : RewriteM UsedIds α) (headings : List (Option Text × Text))
    (blocks : α → List Block) : Prop :=
  ∀ s, (blocks (a s).1).flatMap Block.headingIds = (nameHeadings s.1 headings).1.map some ∧
    (a s).2.1 = (nameHeadings s.1 headings).2

section Walk

variable {file : Option Path}

/-- A block that does not lack an id passes the rewriter as it is. -/
lemma headingIdRewriter_block_keeps {b : Block} (hb : b.headingId? ≠ some none) :
    headingIdRewriter.block file b = pure (some b) := by
  cases b with
  | node => rfl
  | leaf h c =>
    cases c with
    | heading depth id content =>
      cases id with
      | none => exact absurd rfl hb
      | some id => rfl
    | _ => rfl

/-- One step: a leaf that is offered to the rewriter has an id afterwards, if it is a heading. -/
lemma givesIds_leaf (h : Head) (c : Block.Leaf) :
    GivesIds (headingIdRewriter.block file (.leaf h c)) (Block.leaf h c).headings
      Option.toList := by
  intro s
  rw [Block.headings_leaf]
  cases c with
  | heading depth id content =>
    cases id with
    | none => exact ⟨rfl, rfl⟩
    | some id => exact ⟨rfl, rfl⟩
  | _ => exact ⟨rfl, rfl⟩

lemma givesIds_visitBlocks_of {bs : List Block}
    (h : ∀ b ∈ bs, GivesIds (headingIdRewriter.visitBlock file b) b.headings Option.toList) :
    GivesIds (headingIdRewriter.visitBlocks file bs) (bs.flatMap Block.headings) id := by
  induction bs with
  | nil =>
    rw [Rewriter.visitBlocks]
    exact fun s => ⟨rfl, rfl⟩
  | cons b bs ih =>
    rw [Rewriter.visitBlocks]
    intro s
    obtain ⟨hids, hused⟩ := h b List.mem_cons_self s
    obtain ⟨hids', hused'⟩ := ih (fun d hd => h d (List.mem_cons_of_mem _ hd))
      (headingIdRewriter.visitBlock file b s).2
    rw [hused] at hids' hused'
    rw [List.flatMap_cons, nameHeadings_append, List.map_append, ← hids, ← hids']
    exact ⟨List.flatMap_append, hused'⟩

/-- What the walk over a tree does for its headings, by induction on the tree. -/
lemma givesIds_visitBlock (b : Block) :
    GivesIds (headingIdRewriter.visitBlock file b) b.headings Option.toList := by
  induction b using Block.induction with
  | leaf h c =>
    rw [Rewriter.visitBlock, Rewriter.visitLeaf_keeps fun _ => rfl, pure_bind]
    exact givesIds_leaf h c
  | node h f bs ih =>
    rw [Rewriter.visitBlock, Block.headings_node]
    intro s
    obtain ⟨hids, hused⟩ := givesIds_visitBlocks_of ih s
    refine ⟨?_, hused⟩
    rw [← hids]
    exact (List.flatMap_singleton _ _).trans (Block.headingIds_node _ _ _)

/-- A root is offered to a rewriter before its contents, and every other block after them.  This
rewriter changes leaves only, and not their contents, so it treats a root like any other block. -/
lemma headingIdRewriter_visit_eq (root : Block) (s : UsedIds × Journal) :
    headingIdRewriter.visit file root s = headingIdRewriter.visitBlock file root ([], s.2) := by
  cases root with
  | node h f bs => rfl
  | leaf h c =>
    have hcontents (c : Block.Leaf) :
        headingIdRewriter.visitContents file (.leaf h c) = pure (.leaf h c) := by
      rw [Rewriter.visitContents, Rewriter.visitLeaf_keeps fun _ => rfl, map_pure]
    obtain ⟨c', s', hblock⟩ : ∃ c' s', headingIdRewriter.block file (.leaf h c) ([], s.2) =
        (some (.leaf h c'), s') := by
      cases c with
      | heading depth id content => cases id <;> exact ⟨_, _, rfl⟩
      | _ => exact ⟨_, _, rfl⟩
    have hbefore : headingIdRewriter.before file (.leaf h c) s = ((), [], s.2) := rfl
    rw [Rewriter.visit, Rewriter.visitBlock, Rewriter.visitLeaf_keeps fun _ => rfl, pure_bind,
      hblock]
    simp only [bind, StateT.bind, hbefore, hblock, hcontents]
    rfl

/-- **The ids of a document.**  The pass over a tree keeps the ids that there are and gives the
other headings those that are made from their texts, in order.  It records nothing. -/
theorem headingIdRewriter_pass (file : Option Path) (root : Block) (j : Journal) :
    ∃ root', headingIdRewriter.pass file root j = (.ok root', j) ∧
      root'.headingIds = (nameHeadings [] root.headings).1.map some := by
  obtain ⟨r, used, hquiet⟩ :=
    @Rewriter.quiet_visitBlock _ _ file headingIdRewriter_isQuiet root []
  obtain ⟨root', hroot, -⟩ :=
    @Rewriter.yields_visitBlock _ _ file headingIdRewriter_isGentle root ([], j)
  obtain ⟨hids, -⟩ := @givesIds_visitBlock file root ([], j)
  have hinitial : headingIdRewriter.initial = [] := rfl
  rw [hquiet j] at hroot hids
  subst hroot
  refine ⟨root', by rw [Rewriter.pass, headingIdRewriter_visit_eq, hinitial, hquiet j], ?_⟩
  rw [← hids]
  exact (List.flatMap_singleton _ _).symm

lemma headingIdRewriter_visitBlocks_keeps_of {bs : List Block}
    (h : ∀ b ∈ bs, headingIdRewriter.visitBlock file b = pure (some b)) :
    headingIdRewriter.visitBlocks file bs = pure bs := by
  induction bs with
  | nil => rw [Rewriter.visitBlocks]
  | cons b bs ih =>
    rw [Rewriter.visitBlocks, h b List.mem_cons_self, pure_bind,
      ih fun d hd => h d (List.mem_cons_of_mem _ hd), pure_bind]
    rfl

lemma headingIdRewriter_visitBlock_keeps {b : Block} (hb : none ∉ b.headingIds) :
    headingIdRewriter.visitBlock file b = pure (some b) := by
  induction b using Block.induction with
  | leaf h c =>
    rw [Rewriter.visitBlock, Rewriter.visitLeaf_keeps fun _ => rfl, pure_bind]
    refine headingIdRewriter_block_keeps fun hid => hb ?_
    rw [Block.headingIds_leaf, hid, Option.toList_some, List.mem_singleton]
  | node h f bs ih =>
    rw [Block.headingIds_node, List.mem_flatMap] at hb
    have hbs : headingIdRewriter.visitBlocks file bs = pure bs :=
      headingIdRewriter_visitBlocks_keeps_of fun b hmem => ih b hmem fun hid => hb ⟨b, hmem, hid⟩
    rw [Rewriter.visitBlock, hbs, pure_bind]
    rfl

/-- **Ids that are there stay.**  Where every heading has an id the pass changes nothing. -/
theorem headingIdRewriter_pass_keeps {root : Block} (hroot : none ∉ root.headingIds)
    (j : Journal) : headingIdRewriter.pass file root j = (.ok root, j) := by
  rw [Rewriter.pass, headingIdRewriter_visit_eq, headingIdRewriter_visitBlock_keeps hroot]
  rfl

end Walk

/-! ## The path of the file -/

section Files

variable (file file' : Option Path)

lemma visitBlocks_headingIdRewriter_of {bs : List Block}
    (h : ∀ b ∈ bs, headingIdRewriter.visitBlock file b = headingIdRewriter.visitBlock file' b) :
    headingIdRewriter.visitBlocks file bs = headingIdRewriter.visitBlocks file' bs := by
  induction bs with
  | nil => rw [Rewriter.visitBlocks, Rewriter.visitBlocks]
  | cons b bs ih =>
    rw [Rewriter.visitBlocks, Rewriter.visitBlocks, h b List.mem_cons_self,
      ih fun b' hb' => h b' (List.mem_cons_of_mem _ hb')]

/-- The ids of headings do not depend on the path of their file. -/
lemma headingIdRewriter_pass_congr (root : Block) :
    headingIdRewriter.pass file root = headingIdRewriter.pass file' root := by
  have hleaf (c : Block.Leaf) :
      headingIdRewriter.visitLeaf file c = headingIdRewriter.visitLeaf file' c := by
    rw [Rewriter.visitLeaf_keeps fun _ => rfl, Rewriter.visitLeaf_keeps fun _ => rfl]
  have hblock (b : Block) :
      headingIdRewriter.visitBlock file b = headingIdRewriter.visitBlock file' b := by
    induction b using Block.induction with
    | leaf h c =>
      rw [Rewriter.visitBlock, Rewriter.visitBlock, hleaf]
      rfl
    | node h fr bs ih =>
      rw [Rewriter.visitBlock, Rewriter.visitBlock, visitBlocks_headingIdRewriter_of file file' ih]
      rfl
  have hcontents (b : Block) :
      headingIdRewriter.visitContents file b = headingIdRewriter.visitContents file' b := by
    cases b with
    | leaf h c => rw [Rewriter.visitContents, Rewriter.visitContents, hleaf]
    | node h fr bs =>
      rw [Rewriter.visitContents, Rewriter.visitContents,
        visitBlocks_headingIdRewriter_of file file' fun b _ => hblock b]
  have hvisit : headingIdRewriter.visit file root = headingIdRewriter.visit file' root := by
    simp only [Rewriter.visit, hcontents]
    rfl
  funext j
  rw [Rewriter.pass, Rewriter.pass, hvisit]

end Files

end Docmark
