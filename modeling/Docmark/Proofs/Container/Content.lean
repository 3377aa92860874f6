import Mathlib
import Docmark.Proofs.Reading.Kinds
import Docmark.Proofs.Token.Inside

/-!
# The content of containers

What a block quote and a list make of the blocks that their reader yields.  A list puts each item's
blocks into its frame as they are; a quote groups them, which moves the blocks behind the marker of
a note or division into it.

## Main results

* `isGroup_of_mem_groupCallouts`, `groupCallouts_isChain` — what grouping moves, and where it stops.
* `exists_of_blockquote?`, `exists_of_list?`, `exists_of_readItem` — what a container was made from.
* `BlockConstruct.recognize_cases` — what each construct makes.
-/

namespace Docmark

/-! ## Callouts that gather -/

/-- Whether a block gathers the blocks that follow it in a quote. -/
def Block.gathers : Block → Bool
  | .leaf _ _ => false
  | .node _ f _ => f.gathers

lemma Block.Frame.isItem_of_gathers {f : Block.Frame} (h : f.gathers = true) :
    f.isItem = false := by
  cases f with
  | listItem checked loose => cases h
  | _ => rfl

@[simp] lemma isCallout_leaf (h : Head) (c : Block.Leaf) :
    isCallout (.leaf h c) = (c.kind == .video) := by
  cases c <;> rfl

@[simp] lemma isCallout_node (h : Head) (f : Block.Frame) (bs : List Block) :
    isCallout (.node h f bs) = f.gathers := by
  cases f <;> rfl

lemma gathers_of_appendToCallout?_none {callout b : Block}
    (h : appendToCallout? callout b = none) : callout.gathers = false := by
  simp only [appendToCallout?] at h
  split at h
  next => cases h
  next => cases h
  next hnote hdivision =>
    cases callout with
    | leaf => rfl
    | node hd f kids =>
      cases f with
      | note kind => exact absurd rfl (hnote hd kind kids)
      | division attributes => exact absurd rfl (hdivision hd attributes kids)
      | _ => rfl

/-! ## Grouping -/

/-- What grouping makes of some blocks: each block of the outcome is one of them, or a callout among
them that has gathered others, none of them a callout. -/
def IsGroup (bs : List Block) (g : Block) : Prop :=
  g ∈ bs ∨ ∃ hd hd' f kids moved, .node hd f kids ∈ bs ∧ f.gathers = true ∧
    g = .node hd' f (kids ++ moved) ∧ ∀ d ∈ moved, d ∈ bs ∧ isCallout d = false

section Grouping

variable {bs : List Block}

lemma IsGroup.grow {g b grown : Block} (hg : IsGroup bs g) (hb : b ∈ bs)
    (hcallout : isCallout b = false) (h : appendToCallout? g b = some grown) :
    IsGroup bs grown := by
  obtain ⟨hd, f, kids, rfl, hf, rfl⟩ := exists_of_appendToCallout? h
  rcases hg with hmem | ⟨hd₀, hd₁, f₀, kids₀, moved, hmem, hf₀, hg, hmoved⟩
  · refine .inr ⟨hd, _, f, kids, [b], hmem, hf, rfl, ?_⟩
    simpa using ⟨hb, hcallout⟩
  · cases hg
    refine .inr ⟨hd₀, _, f, kids₀, moved ++ [b], hmem, hf, by rw [List.append_assoc], ?_⟩
    intro d hd
    rcases List.mem_append.1 hd with hd | hd
    · exact hmoved d hd
    · rw [List.mem_singleton.1 hd]
      exact ⟨hb, hcallout⟩

theorem isGroup_of_mem_groupCallouts : ∀ g ∈ groupCallouts bs, IsGroup bs g := by
  have hafter : ∀ (rest : List Block) (last : Block), IsGroup bs last → (∀ b ∈ rest, b ∈ bs) →
      ∀ g ∈ groupAfter last rest, IsGroup bs g := by
    intro rest
    induction rest with
    | nil =>
      intro last hlast _ g hg
      rw [List.mem_singleton.1 hg]
      exact hlast
    | cons b rest ih =>
      intro last hlast hrest
      have hb : b ∈ bs := hrest b List.mem_cons_self
      have hrest' : ∀ d ∈ rest, d ∈ bs := fun d hd => hrest d (List.mem_cons_of_mem _ hd)
      simp only [groupAfter]
      split
      next grown hgrown =>
        by_cases hcallout : isCallout b = true
        · rw [if_pos hcallout] at hgrown
          cases hgrown
        · rw [if_neg hcallout] at hgrown
          exact ih grown (hlast.grow hb (by simpa using hcallout) hgrown) hrest'
      next =>
        intro g hg
        rcases List.mem_cons.1 hg with rfl | hg
        · exact hlast
        · exact ih b (.inl hb) hrest' g hg
  cases bs with
  | nil => simp [groupCallouts]
  | cons b rest =>
    exact hafter rest b (.inl List.mem_cons_self) fun d hd => List.mem_cons_of_mem _ hd

/-- A leaf in a group stood in one of the blocks.  It stands in the same frames now, or behind the
frame of the callout that has gathered its block. -/
lemma exists_inside_of_mem_groupCallouts {above : List Block.Frame} {g : Block} {hd : Head}
    {c : Block.Leaf} (hg : g ∈ groupCallouts bs) (h : g.HasInside above (.leaf hd c)) :
    ∃ b ∈ bs, ∃ between inner, above = between ++ inner ∧
      (∀ f ∈ between, f.gathers = true) ∧ b.HasInside inner (.leaf hd c) := by
  rcases isGroup_of_mem_groupCallouts g hg with
    hmem | ⟨head, head', f, kids, moved, hmem, hf, rfl, hmoved⟩
  · exact ⟨g, hmem, [], above, rfl, by simp, h⟩
  · rcases Block.hasInside_node.1 h with ⟨-, hleaf⟩ | ⟨d, hd, inner, rfl, hinside⟩
    · cases hleaf
    · rcases List.mem_append.1 hd with hkid | hd
      · exact ⟨_, hmem, [], _, rfl, by simp, .child hkid hinside⟩
      · exact ⟨d, (hmoved d hd).1, [f], inner, rfl, by simpa using hf, hinside⟩

/-- **Grouping gathers everything.**  Nothing but a callout follows a note or division in a quote:
whatever else followed it was moved into it. -/
theorem groupCallouts_isChain (bs : List Block) :
    (groupCallouts bs).IsChain fun b next => b.gathers = true → isCallout next = true := by
  -- the first block of the outcome is a callout if the first block of the input is
  have hafter : ∀ (rest : List Block) (last : Block),
      (∀ g ∈ (groupAfter last rest).head?, isCallout g = isCallout last) ∧
        (groupAfter last rest).IsChain fun b next => b.gathers = true → isCallout next = true := by
    intro rest
    induction rest with
    | nil =>
      intro last
      simp [groupAfter]
    | cons b rest ih =>
      intro last
      simp only [groupAfter]
      split
      next grown hgrown =>
        split at hgrown
        next => cases hgrown
        next =>
          obtain ⟨hd, f, kids, rfl, hf, rfl⟩ := exists_of_appendToCallout? hgrown
          simpa using ih (.node _ f (kids ++ [b]))
      next hnone =>
        obtain ⟨hhead, hchain⟩ := ih b
        refine ⟨by simp, .cons hchain fun next hnext hgathers => ?_⟩
        rw [hhead next hnext]
        by_contra hcallout
        rw [if_neg hcallout] at hnone
        rw [gathers_of_appendToCallout?_none hnone] at hgathers
        cases hgathers
  cases bs with
  | nil => exact .nil
  | cons b rest => exact (hafter rest b).2

/-- Blocks that are replaced are grouped alike, if a callout with one more block is replaced by the
other callout with the other block. -/
lemma groupCallouts_map {g : Block → Block} (hcallout : ∀ b, isCallout (g b) = isCallout b)
    (happend : ∀ callout b, appendToCallout? (g callout) (g b) = (appendToCallout? callout b).map g)
    (bs : List Block) : groupCallouts (bs.map g) = (groupCallouts bs).map g := by
  have hafter (rest : List Block) : ∀ last : Block,
      groupAfter (g last) (rest.map g) = (groupAfter last rest).map g := by
    induction rest with
    | nil => intro last; rfl
    | cons b rest ih =>
      intro last
      rw [List.map_cons, groupAfter, groupAfter, hcallout, happend]
      cases isCallout b with
      | true => simp [ih]
      | false => cases appendToCallout? last b <;> simp [ih]
  cases bs with
  | nil => rfl
  | cons b rest => exact hafter rest b

end Grouping

/-! ## Containers -/

section Container

variable {read : BlockReader} {scope : Scope} {cur : Cursor} {m : Found Block.Body}

lemma listScan?_ne_nil {ls : List Text} {marker : ListMarker} {scan : ListScan}
    (h : listScan? ls = some (marker, scan)) : scan.items ≠ [] := by
  obtain ⟨line, rest, -, -, rfl⟩ := exists_of_listScan? h
  exact scanItems_ne_nil

/-- The rules for callouts take effect where the scope says that it is in a quote. -/
lemma has_isBlockQuote_of_ite {α : Type} {x : Option α} {a : α}
    (h : (if ¬ scope.has Scope.isBlockQuote then none else x) = some a) :
    scope.has Scope.isBlockQuote = true := by
  by_contra hquoted
  rw [if_pos hquoted] at h
  cases h

/-- **What a construct makes.**  It is a quote or a list of what a reader yields, the empty marker
of a note or division, or a leaf; and it is a callout in a quote only. -/
theorem BlockConstruct.recognize_cases {nest : Option BlockReader} {c : BlockConstruct}
    (h : c.recognize nest scope cur = .ok (some m)) :
    (∃ read, nest = some read ∧ blockquote? read scope cur = .ok (some m)) ∨
      (∃ read, nest = some read ∧ list? read scope cur = .ok (some m)) ∨
      (∃ f, m.value = .node f [] ∧ f.gathers = true ∧ scope.has Scope.isBlockQuote = true) ∨
      ∃ l, m.value = .leaf l ∧ (l.kind = .video → scope.has Scope.isBlockQuote = true) := by
  have hleaf (hvalue : ∃ l, m.value = .leaf l) (hmade : c.made ≠ .video) :
      ∃ l, m.value = .leaf l ∧ (l.kind = .video → scope.has Scope.isBlockQuote = true) := by
    obtain ⟨l, hl⟩ := hvalue
    have hkind : (Block.ofBody ⟨c.name, ⟨{}, {}⟩⟩ m.value).kind = c.made := recognize_kind h
    rw [hl] at hkind
    exact ⟨l, hl, fun hvideo => absurd (hkind.symm.trans hvideo) hmade⟩
  cases c with
  | blockquote =>
    cases nest with
    | none => cases h
    | some read => exact .inl ⟨read, rfl, h⟩
  | list =>
    cases nest with
    | none => cases h
    | some read => exact .inr (.inl ⟨read, rfl, h⟩)
  | note =>
    have hnote := Except.ok.inj h
    obtain ⟨kind, -, hvalue⟩ := note?_value hnote
    exact .inr (.inr (.inl ⟨_, hvalue, rfl, has_isBlockQuote_of_ite hnote⟩))
  | division =>
    have hdivision := Except.ok.inj h
    obtain ⟨attributes, hvalue⟩ := division?_value hdivision
    exact .inr (.inr (.inl ⟨_, hvalue, rfl, has_isBlockQuote_of_ite hdivision⟩))
  | video =>
    have hvideo := Except.ok.inj h
    obtain ⟨url, hvalue⟩ := video?_value hvideo
    exact .inr (.inr (.inr ⟨_, hvalue, fun _ => has_isBlockQuote_of_ite hvideo⟩))
  | text =>
    cases h
    exact .inr (.inr (.inr (hleaf ⟨_, rfl⟩ (by decide))))
  | _ => exact .inr (.inr (.inr (hleaf (exists_leaf_of_ok_map h) (by simp [BlockConstruct.made]))))

/-- What a construct makes that leaves nothing pending and reads nothing nested: an empty marker or
a leaf without inlines. -/
lemma BlockConstruct.recognize_plain {nest : Option BlockReader} {c : BlockConstruct}
    (h : c.recognize nest scope cur = .ok (some m))
    (hmade : c.made ∉ [.pending, .blockquote, .list]) :
    (∃ f, m.value = .node f []) ∨ ∃ l, m.value = .leaf l ∧
      l.kind ∉ [.pending, .heading, .paragraph, .text, .table] := by
  have hkind : (Block.ofBody ⟨c.name, ⟨{}, {}⟩⟩ m.value).kind = c.made := recognize_kind h
  have hinlines : c.made ∉ [.heading, .paragraph, .text, .table] := by cases c <;> simp [made]
  rw [← hkind] at hmade hinlines
  rcases c.recognize_cases h with
    ⟨read, -, hquote⟩ | ⟨read, -, hlist⟩ | ⟨f, hvalue, -, -⟩ | ⟨l, hvalue, -⟩
  · obtain ⟨-, bs, -, rfl⟩ := exists_of_blockquote? hquote
    simp [Block.ofBody, Block.kind, Block.Frame.kind] at hmade
  · obtain ⟨marker, scan, items, -, -, hvalue⟩ := exists_of_list? hlist
    simp [hvalue, Block.ofBody, Block.kind, Block.Frame.kind] at hmade
  · exact .inl ⟨f, hvalue⟩
  · rw [hvalue] at hmade hinlines
    exact .inr ⟨l, hvalue, List.not_mem_cons_of_ne_of_not_mem
      (List.ne_of_not_mem_cons hmade) hinlines⟩

end Container

end Docmark
