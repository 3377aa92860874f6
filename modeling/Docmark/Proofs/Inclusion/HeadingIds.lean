import Mathlib
import Docmark.Proofs.Inclusion.Build
import Docmark.Proofs.Reading.Unnamed

/-!
# Heading ids of a built document

Every file is rewritten as a document of its own, so the rewriter that gives headings their ids
starts anew with each file, also with an included one.  Expansion then moves the trees of included
files into the built one and gives no ids.  So the headings that come from one file by one way have
different ids, while headings from different files, or from one file that is included twice, may
have the same.

## Main results

* `Engine.headingIds_differ` — in a built document, the headings of the document itself have
  different ids, and so have those of each content that is included in it.
* `heading_id_repeats` — a document and the file that it includes give the same id.
-/

namespace Docmark

/-! ## Moved trees -/

namespace Block

variable {f : Text → Text}

lemma headingId?_mapTargets (b : Block) : (b.mapTargets f).headingId? = b.headingId? := by
  cases b with
  | leaf h c =>
    rw [mapTargets_leaf]
    cases c <;> rfl
  | node h fr bs =>
    rw [mapTargets_node]
    rfl

lemma ownHeadingIds_mapTargets (b : Block) : (b.mapTargets f).ownHeadingIds = b.ownHeadingIds := by
  induction b using Block.induction with
  | leaf h c =>
    have hleaf := headingId?_mapTargets (f := f) (.leaf h c)
    rw [mapTargets_leaf] at hleaf ⊢
    rw [ownHeadingIds_leaf, ownHeadingIds_leaf, hleaf]
  | node h fr bs ih =>
    rw [mapTargets_node, ownHeadingIds_node, ownHeadingIds_node, mapTargetsAll_eq_map,
      ownHeadingIdsAll_eq_flatMap, ownHeadingIdsAll_eq_flatMap, List.flatMap_map,
      List.flatMap_congr ih]

lemma ownHeadingIdsAll_mapTargets (bs : List Block) :
    ownHeadingIdsAll (mapTargetsAll f bs) = ownHeadingIdsAll bs := by
  rw [mapTargetsAll_eq_map, ownHeadingIdsAll_eq_flatMap, ownHeadingIdsAll_eq_flatMap,
    List.flatMap_map]
  exact List.flatMap_congr fun b _ => ownHeadingIds_mapTargets b

/-- A tree with other link targets has the same ids at the same places. -/
lemma HasDistinctIds.mapTargets {b : Block} (hb : b.HasDistinctIds) :
    (b.mapTargets f).HasDistinctIds where
  own := (ownHeadingIds_mapTargets b).symm ▸ hb.own
  parts := by
    intro n hn
    rw [nodes_mapTargets] at hn
    obtain ⟨m, hm, rfl⟩ := List.mem_map.1 hn
    cases m with
    | leaf h c =>
      rw [mapTargets_leaf]
      exact IdsDiffer.nil
    | node h fr bs =>
      rw [mapTargets_node, Block.children, ownHeadingIdsAll_mapTargets]
      exact hb.parts _ hm

end Block

lemma rebaseIncluded_hasDistinctIds {file : Option Path} {path : Path} {root : Block}
    (hroot : root.HasDistinctIds) :
    Succeeds (rebaseIncluded file path root) Block.HasDistinctIds := by
  simp only [rebaseIncluded]
  split
  next =>
    split
    · exact Succeeds.pure hroot
    · rw [LinkRebase.rewriter_pass]
      exact Succeeds.pure hroot.mapTargets
  next => exact Succeeds.pure hroot

/-! ## Expanded trees -/

/-- A loader that supplies only trees in which heading ids differ. -/
def Loader.SuppliesIds (load : Loader BuildM) : Prop :=
  ∀ d span, Succeeds (load d span) fun found =>
    ∀ path root, found = some (path, root) → root.HasDistinctIds

lemma includedBlocks_idsDiffer {root : Block} (hroot : root.HasDistinctIds) :
    IdsDiffer (Block.ownHeadingIdsAll (includedBlocks root)) ∧
      ∀ b ∈ includedBlocks root, b.HasDistinctParts := by
  simp only [includedBlocks]
  split
  next => exact Block.hasDistinctParts_node.1 hroot.parts
  next =>
    rw [Block.ownHeadingIdsAll_singleton, List.forall_mem_singleton]
    exact ⟨hroot.own, hroot.parts⟩

section Expand

variable {load : Loader BuildM}

lemma succeeds_expandBlocks_ids_of {bs : List Block}
    (h : ∀ b ∈ bs, Succeeds (expandBlock load b) fun b' =>
      b'.ownHeadingIds = b.ownHeadingIds ∧ b'.HasDistinctParts) :
    Succeeds (expandBlocks load bs) fun bs' =>
      Block.ownHeadingIdsAll bs' = Block.ownHeadingIdsAll bs ∧ ∀ b' ∈ bs', b'.HasDistinctParts := by
  induction bs with
  | nil =>
    rw [expandBlocks]
    exact Succeeds.pure ⟨rfl, List.forall_mem_nil _⟩
  | cons b bs ih =>
    rw [expandBlocks]
    refine Succeeds.bind (h b List.mem_cons_self) fun b' hb => ?_
    refine Succeeds.bind (ih fun d hd => h d (List.mem_cons_of_mem _ hd)) fun bs' hbs => ?_
    refine Succeeds.pure ⟨?_, List.forall_mem_cons.2 ⟨hb.2, hbs.2⟩⟩
    rw [Block.ownHeadingIdsAll, Block.ownHeadingIdsAll, hb.1, hbs.1]

variable (hload : load.SuppliesIds)

include hload

/-- The inline sequences of a leaf are expanded if every target is loaded. -/
lemma SuppliesIds.expandInlines (ts : List Inline) :
    Succeeds (expandInlines load ts) fun _ => True := by
  let nothing : Weight := ⟨fun _ => 0, fun _ => 0⟩
  have hbounded : load.IsBounded nothing 0 := by
    refine ⟨fun d span => (hload d span).imp fun found _ path root _ => ?_⟩
    have hzero : root.height nothing = 0 := Block.height_eq_zero.2 ⟨fun _ _ => rfl, fun _ _ => rfl⟩
    rw [hzero]
    exact ⟨le_rfl, le_rfl⟩
  exact (succeeds_expandInlines ⟨rfl, rfl, rfl⟩ hbounded ts).imp fun _ _ => trivial

lemma succeeds_expandLeaf_ids (h : Head) (c : Block.Leaf) :
    Succeeds (expandLeaf load c) fun c' =>
      (Block.leaf h c').headingId? = (Block.leaf h c).headingId? := by
  have hrow (row : List (List Inline)) : Succeeds (row.mapM (expandInlines load)) fun _ => True :=
    (Succeeds.mapM row fun ts _ => SuppliesIds.expandInlines hload ts).imp fun _ _ => trivial
  cases c with
  | table align header rows =>
    refine Succeeds.bind (hrow header) fun header' _ => ?_
    exact Succeeds.bind (Succeeds.mapM rows fun row _ => hrow row) fun rows' _ => Succeeds.pure rfl
  | heading | paragraph | text =>
    exact Succeeds.bind (SuppliesIds.expandInlines hload _) fun _ _ => Succeeds.pure rfl
  | _ => exact Succeeds.pure rfl

/-- Expansion keeps the ids of a tree, and puts trees with different ids into it. -/
lemma succeeds_expandBlock_ids (b : Block) (hb : b.HasDistinctParts) :
    Succeeds (expandBlock load b) fun b' =>
      b'.ownHeadingIds = b.ownHeadingIds ∧ b'.HasDistinctParts := by
  induction b using Block.induction with
  | leaf h c =>
    by_cases hc : c.kind = .directive
    · obtain ⟨d, rfl⟩ := Block.Leaf.exists_of_kind_directive hc
      rw [expandBlock]
      refine Succeeds.bind (hload d h.span) fun found hfound => ?_
      cases found with
      | none => exact Succeeds.pure ⟨rfl, Block.hasDistinctParts_leaf _ _⟩
      | some found =>
        have hroot := includedBlocks_idsDiffer (hfound found.1 found.2 rfl)
        exact Succeeds.pure ⟨rfl, Block.hasDistinctParts_node.2 hroot⟩
    · rw [expandBlock_leaf hc]
      refine Succeeds.bind (succeeds_expandLeaf_ids hload h c) fun c' hc' => Succeeds.pure ?_
      rw [Block.ownHeadingIds_leaf, Block.ownHeadingIds_leaf, hc']
      exact ⟨rfl, Block.hasDistinctParts_leaf h c'⟩
  | node h f bs ih =>
    obtain ⟨hids, hbs⟩ := Block.hasDistinctParts_node.1 hb
    rw [expandBlock]
    refine Succeeds.bind (succeeds_expandBlocks_ids_of fun b hmem => ih b hmem (hbs b hmem))
      fun bs' hbs' => Succeeds.pure ?_
    rw [Block.ownHeadingIds_node, Block.ownHeadingIds_node, Block.hasDistinctParts_node, hbs'.1]
    exact ⟨rfl, hids, hbs'.2⟩

end Expand

/-! ## Built files -/

namespace Engine

/-- An engine that gives headings their ids, and makes no further passes. -/
structure NamesHeadings (e : Engine) : Prop where
  plain : e.IsPlain
  headingIds : e.headingIds = true
  passes : e.passes = []

variable {e : Engine}

lemma checks_keep (e : Engine) (file : Option Path) (root : Block) :
    Succeeds (runPasses
      (if e.validators.isEmpty then [] else [(Validator.group e.validators).pass]) file root)
      fun root' => root' = root := by
  split
  · exact Succeeds.pure rfl
  · rw [runPasses_singleton]
    intro j
    rw [Validator.group_pass]
    exact ⟨root, rfl, rfl⟩

lemma prepare_hasDistinctIds (he : e.NamesHeadings) (scope : Scope) (file : Option Path)
    (text : Text) : Succeeds (e.prepare scope file text) Block.HasDistinctIds := by
  obtain ⟨root, hroot⟩ := exists_readWith he.plain.rules he.plain.text [] scope text
  have hlacks : root.LacksIds := readWith_lacksIds he.plain.rules.leavesIds hroot
  have hread : Succeeds ((read e.rules scope text : Except Fault Block) : BuildM Block)
      fun r => r = root := Succeeds.lift hroot rfl
  have hpass : Succeeds (headingIdRewriter.pass file root) Block.HasDistinctIds := by
    intro j
    obtain ⟨root', hroot', hids⟩ := headingIdRewriter_pass file root j
    refine ⟨root', congrArg Prod.fst hroot', .of_headingIds ?_⟩
    rw [hids]
    exact idsDiffer_map_some (nameHeadings_nodup hlacks.headings)
  refine Succeeds.bind hread ?_
  rintro _ rfl
  rw [allPasses, if_pos he.headingIds, he.passes, List.append_nil, runPasses_append,
    runPasses_singleton]
  refine Succeeds.bind hpass fun root' hroot' => ?_
  exact (checks_keep e file root').imp fun root'' heq => heq ▸ hroot'

lemma loadIn_suppliesIds {chain : IncludeChain} {file : Option Path}
    (hnext : ∀ p ∈ e.resolver.known, chain.holds p = false → ∀ scope file text,
      Succeeds (e.process (chain ++ [p]) scope file text) Block.HasDistinctIds) :
    (e.loadIn chain file).SuppliesIds := by
  exact loadIn_succeeds hnext fun _ _ => rebaseIncluded_hasDistinctIds

/-- The build of a file succeeds with a tree in which heading ids differ, by induction on the files
that are not open: the file has the ids of its own tree, and every content that is included in it
has them from the build of another file. -/
lemma process_hasDistinctIds (he : e.NamesHeadings) (chain : IncludeChain) (scope : Scope)
    (file : Option Path) (text : Text) :
    Succeeds (e.process chain scope file text) Block.HasDistinctIds := by
  refine chain_induction (e := e) (P := fun chain => ∀ scope file text,
    Succeeds (e.process chain scope file text) Block.HasDistinctIds) ?_ chain scope file text
  intro chain hnext scope file text
  rw [process_eq]
  refine Succeeds.bind (prepare_hasDistinctIds he scope file text) fun root hroot => ?_
  have hload : (e.loadIn chain file).SuppliesIds := loadIn_suppliesIds hnext
  refine (succeeds_expandBlock_ids hload root hroot.parts).imp fun root' h => ?_
  exact ⟨h.1.symm ▸ hroot.own, h.2⟩

/-- A document is built if its outermost file is, and has the tree of that file. -/
lemma exists_parse {source : Source} {Q : Block → Prop}
    (h : Succeeds (e.process (source.path.map e.canonicalPath).toList Scope.document source.path
      source.content) Q) : ∃ d, e.parse source = .ok d ∧ Q d.root := by
  obtain ⟨root, hroot, hQ⟩ := h {}
  simp only [parse]
  cases hp : e.process (source.path.map e.canonicalPath).toList Scope.document source.path
      source.content {} with
  | mk r journal =>
    rw [hp] at hroot
    cases hroot
    exact ⟨_, rfl, hQ⟩

/-- **Headings of one file have different ids.**  With the rules of a dialect, with heading ids, and
with any resolver and any validators, a document is built.  Enter its tree, or any content that is
included in it at any depth: every heading that is reached from there without entering further
included content has an id, and no two of these headings have the same. -/
theorem headingIds_differ (e : Engine) (flavor : Flavor) (source : Source) :
    let e' := { e.ofFlavor flavor with headingIds := true }
    ∃ d, e'.parse source = .ok d ∧
      ∀ n ∈ d.root.nodes, (Block.ownHeadingIdsAll n.children).Nodup ∧
        none ∉ Block.ownHeadingIdsAll n.children := by
  intro e'
  have he : e'.NamesHeadings :=
    { plain :=
        { rules := flavor.rules_isStandard
          text := flavor.rules_hasText
          passes := List.forall_mem_nil _ }
      headingIds := rfl
      passes := rfl }
  obtain ⟨d, hd, hids⟩ := exists_parse (process_hasDistinctIds he _ _ _ _)
  exact ⟨d, hd, hids.parts⟩

/-- **An id may come twice.**  A document with the heading `A` includes a file with the same heading:
both headings of the built document have the id `a`. -/
theorem heading_id_repeats :
    let e : Engine := { ({} : Engine).ofFlavor .dfm with
      resolver := MemoryFiles.resolver [("b.md".toList, "# A\n".toList)]
      headingIds := true }
    ∃ d, e.parse ⟨none, "# A\n\n[!include[x](b.md)]\n".toList⟩ = .ok d ∧
      d.root.headingIds = [some "a".toList, some "a".toList] ∧ ¬ d.root.headingIds.Nodup := by
  intro e
  have hids : (e.parse ⟨none, "# A\n\n[!include[x](b.md)]\n".toList⟩).toOption.map
      (·.root.headingIds) = some [some "a".toList, some "a".toList] := by
    decide +kernel
  cases hd : e.parse ⟨none, "# A\n\n[!include[x](b.md)]\n".toList⟩ with
  | error f =>
    rw [hd] at hids
    cases hids
  | ok d =>
    rw [hd] at hids
    have hroot : d.root.headingIds = [some "a".toList, some "a".toList] := Option.some.inj hids
    refine ⟨d, rfl, hroot, ?_⟩
    rw [hroot]
    simp

end Engine

end Docmark
