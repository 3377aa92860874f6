import Mathlib
import Docmark.Proofs.FinalFeed.Growth
import Docmark.Proofs.Reading.Callouts

/-!
# What grouping keeps

In a quote, the blocks behind the marker of a note or division are moved into it.  No block is lost
on the way, none changes its place in the order, and none is changed but a marker, which ends where
the last of its blocks ends.

## Main results

* `grouping_loses_nothing` — the grouped blocks, taken out of their markers again, are the blocks
  that were grouped.
-/

namespace Docmark

/-! ## Groups -/

/-- The block with its end at another point. -/
def Block.endingAt (b : Block) (p : Point) : Block :=
  b.withHead { b.head with span := ⟨b.span.start, p⟩ }

/-- A block stands for some blocks that were grouped: a note or division for its marker, which is
the same block when it is empty, and for the blocks inside it; any other block for itself.  The
marker starts where the note starts, and it ends there too unless the note has gathered blocks. -/
def Block.StandsFor (g : Block) (bs : List Block) : Prop :=
  if g.gathers then
    ∃ stop, bs = (g.withChildren []).endingAt stop :: g.children ∧
      (g.children = [] → stop = g.span.stop)
  else bs = [g]

/-- A note or division ends where the last block inside it ends. -/
def Block.EndsWithChildren (g : Block) : Prop :=
  g.gathers = true → ∀ last ∈ g.children.getLast?, g.span.stop = last.span.stop

lemma Block.standsFor_self {b : Block} (h : b.gathers = true → b.children = []) :
    b.StandsFor [b] := by
  cases b with
  | leaf hd c => rfl
  | node hd f kids =>
    cases hf : f.gathers with
    | false => rw [StandsFor, if_neg (by simp [gathers, hf])]
    | true =>
      obtain rfl : kids = [] := h hf
      rw [StandsFor, if_pos (by exact hf)]
      exact ⟨hd.span.stop, rfl, fun _ => rfl⟩

/-- A callout that has gathered one more block stands for one more block. -/
lemma Block.StandsFor.gather {hd : Head} {f : Block.Frame} {kids bs : List Block} {b : Block}
    (hf : f.gathers = true) (h : (Block.node hd f kids).StandsFor bs) :
    (Block.node { hd with span := ⟨hd.span.start, b.span.stop⟩ } f (kids ++ [b])).StandsFor
      (bs ++ [b]) := by
  rw [StandsFor, if_pos (by exact hf)] at h ⊢
  obtain ⟨stop, rfl, -⟩ := h
  exact ⟨stop, rfl, fun hnil => absurd hnil (List.append_ne_nil_of_right_ne_nil _ (by simp))⟩

/-- The grouped blocks stand for the blocks that were grouped, in order. -/
lemma exists_parts_of_groupCallouts {bs : List Block}
    (hempty : ∀ b ∈ bs, b.gathers = true → b.children = []) :
    ∃ parts : List (List Block), parts.flatten = bs ∧
      List.Forall₂ Block.StandsFor (groupCallouts bs) parts := by
  -- the group at hand may have gathered some blocks already
  have hafter (rest : List Block) : (∀ b ∈ rest, b.gathers = true → b.children = []) →
      ∀ (last : Block) (part : List Block), last.StandsFor part →
        ∃ parts : List (List Block), parts.flatten = part ++ rest ∧
          List.Forall₂ Block.StandsFor (groupAfter last rest) parts := by
    induction rest with
    | nil =>
      intro _ last part hlast
      exact ⟨[part], by simp, .cons hlast .nil⟩
    | cons b rest ih =>
      intro hempty last part hlast
      obtain ⟨hb, hrest⟩ := List.forall_mem_cons.1 hempty
      obtain hapart | ⟨hd, f, kids, rfl, hf, hcallout⟩ := groupAfter_cases last b
      · obtain ⟨parts, hparts, hgroups⟩ := ih hrest b [b] (Block.standsFor_self hb)
        refine ⟨part :: parts, by rw [List.flatten_cons, hparts, List.singleton_append], ?_⟩
        rw [groupAfter_apart hapart]
        exact .cons hlast hgroups
      · obtain ⟨parts, hparts, hgroups⟩ := ih hrest _ (part ++ [b]) (hlast.gather hf)
        refine ⟨parts, by rw [hparts, List.append_assoc, List.singleton_append], ?_⟩
        rw [groupAfter_gather hf hcallout]
        exact hgroups
  cases bs with
  | nil => exact ⟨[], rfl, .nil⟩
  | cons b rest =>
    obtain ⟨hb, hrest⟩ := List.forall_mem_cons.1 hempty
    exact hafter rest hrest b [b] (Block.standsFor_self hb)

lemma Block.EndsWithChildren.group {bs : List Block} (h : ∀ b ∈ bs, b.EndsWithChildren) :
    ∀ g ∈ groupCallouts bs, g.EndsWithChildren := by
  refine groupCallouts_keeps (fun callout b grown hgrown _ _ => ?_) h
  obtain ⟨hd, f, kids, rfl, -, rfl⟩ := exists_of_appendToCallout? hgrown
  intro _ last hlast
  rw [Block.children, List.getLast?_concat] at hlast
  obtain rfl : b = last := Option.some.inj hlast
  rfl

/-- **Grouping loses nothing.**  Let blocks be grouped among which the notes and divisions are still
empty.  If every note and division of the outcome is emptied and followed by the blocks that were
inside it, the blocks that were grouped are there again, in their order: all of them unchanged but
for the end of a marker that has gathered blocks, since the note or division ends where the last of
its blocks ends.  Behind a note or division nothing is left but callouts. -/
theorem grouping_loses_nothing {bs : List Block}
    (hempty : ∀ b ∈ bs, b.gathers = true → b.children = []) :
    (∃ parts : List (List Block), parts.flatten = bs ∧
      List.Forall₂ Block.StandsFor (groupCallouts bs) parts) ∧
    ((groupCallouts bs).IsChain fun b next => b.gathers = true → isCallout next = true) ∧
    ∀ g ∈ groupCallouts bs, g.EndsWithChildren := by
  refine ⟨exists_parts_of_groupCallouts hempty, groupCallouts_isChain bs, ?_⟩
  refine Block.EndsWithChildren.group fun b hb hgathers last hlast => ?_
  rw [hempty b hb hgathers] at hlast
  cases hlast

/-- The blocks of a quote: a note with two blocks, and a section that a video keeps empty. -/
theorem grouping_loses_nothing_note :
    ∃ bs : List Block,
      (scanBlocks dfmRules (Scope.document.nested Scope.isBlockQuote)
        "[!NOTE]\na\n\n# b\n[!div]\n[!Video u]\n\nc\n".toList Point.start).tokens = bs ∧
      bs.map Block.kind = [.note, .pending, .pending, .division, .video, .pending] ∧
      (∀ b ∈ bs, b.gathers = true → b.children = []) ∧
      (∃ parts : List (List Block), parts.flatten = bs ∧
        List.Forall₂ Block.StandsFor (groupCallouts bs) parts) ∧
      ((groupCallouts bs).IsChain fun b next => b.gathers = true → isCallout next = true) ∧
      ∀ g ∈ groupCallouts bs, g.EndsWithChildren := by
  have hempty : ∀ b ∈ (scanBlocks dfmRules (Scope.document.nested Scope.isBlockQuote)
      "[!NOTE]\na\n\n# b\n[!div]\n[!Video u]\n\nc\n".toList Point.start).tokens,
      b.gathers = true → b.children = [] := fun b hb =>
    (scanBlocks_hasCallouts (Flavor.rules_isStandard .dfm) _ _ _ b hb).marker
  exact ⟨_, rfl, by decide +kernel, hempty, grouping_loses_nothing hempty⟩

end Docmark
