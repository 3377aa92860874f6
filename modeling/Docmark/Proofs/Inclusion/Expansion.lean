import Mathlib
import Docmark.Proofs.Inclusion.Run
import Docmark.Proofs.Reading.Total
import Docmark.Proofs.Rewrite.Gentle

/-!
# Expansion ends and leaves no directive

Each file that is entered joins the chain of open files and stays on it while its own directives are
expanded, and no file joins twice.  So the files that are not open grow fewer from one level of
included content to the next: expansion ends, and included content is nested at most as deep as
there are files.  On the way every directive is replaced, by the content of its file or by its own
source text.

## Main results

* `Engine.process_succeeds` — the build of a file succeeds, leaves no directive, and nests included
  content no deeper than there are closed files.
* `Engine.inclusion_ends` — builds over files in memory end, whatever includes what, with a chain
  that never repeats a file and is left as it was.
-/

namespace Docmark

/-! ## What is put in the place of a directive -/

/-- Plain text and source text shown as it stands weigh nothing. -/
structure Weight.IsPlain (w : Weight) : Prop where
  text : w.inline .text = 0
  rawInline : w.inline .raw = 0
  rawBlock : w.block .raw = 0

lemma Weight.inclusions_isPlain : Weight.inclusions.IsPlain := ⟨rfl, rfl, rfl⟩

lemma Weight.directives_isPlain : Weight.directives.IsPlain := ⟨rfl, rfl, rfl⟩

section Included

variable {w : Weight}

lemma Block.heightAll_includedBlocks_le (root : Block) :
    Block.heightAll w (includedBlocks root) ≤ root.height w := by
  simp only [includedBlocks]
  split
  next => simp
  next => simp

lemma Block.heightRows_textInlinesAll_of {bs : List Block}
    (h : ∀ b ∈ bs, Inline.heightRows w b.textInlines ≤ b.height w) :
    Inline.heightRows w (Block.textInlinesAll bs) ≤ Block.heightAll w bs := by
  induction bs with
  | nil => simp [Block.textInlinesAll]
  | cons b bs ih =>
    rw [Block.textInlinesAll, Inline.heightRows_append, Block.heightAll_cons]
    exact max_le_max (h b List.mem_cons_self) (ih fun d hd => h d (List.mem_cons_of_mem _ hd))

/-- The inline sequences that an included tree contributes are no higher than the tree. -/
lemma Block.heightRows_textInlines_le (root : Block) :
    Inline.heightRows w root.textInlines ≤ root.height w := by
  induction root using Block.induction with
  | leaf h c =>
    rw [Block.height_leaf, Block.Leaf.height]
    have hrow (content : List Inline) :
        Inline.heightRows w (if content.isEmpty then [] else [content]) ≤
          Inline.heightRows w [content] := by
      split <;> simp
    cases c with
    | heading depth id content => exact (hrow content).trans (Nat.le_add_left _ _)
    | paragraph content => exact (hrow content).trans (Nat.le_add_left _ _)
    | text content => exact (hrow content).trans (Nat.le_add_left _ _)
    | _ => simp [Block.textInlines]
  | node h f bs ih =>
    rw [Block.textInlines, Block.height_node]
    exact (Block.heightRows_textInlinesAll_of ih).trans (Nat.le_add_left _ _)

lemma Inline.heightAll_spaced_le (hw : w.inline .text = 0) (rows : List (List Inline)) :
    Inline.heightAll w (spaced rows) ≤ Inline.heightRows w rows := by
  fun_induction spaced rows with
  | case1 => simp
  | case2 rest ih => simpa using ih
  | case3 t ts rest ih =>
    simp only [Inline.heightRows_cons, Inline.heightAll_append, Inline.heightAll_cons,
      Inline.height_leaf, Inline.Leaf.kind, hw]
    omega

lemma Inline.heightAll_includedInlines_le (hw : w.inline .text = 0) (root : Block) :
    Inline.heightAll w (includedInlines root) ≤ root.height w := by
  have hrows := Block.heightRows_textInlines_le (w := w) root
  simp only [includedInlines]
  split
  next => simp
  next first rest hroot =>
    rw [hroot, Inline.heightRows_cons] at hrows
    have hspaced := Inline.heightAll_spaced_le hw rest
    rw [Inline.heightAll_append]
    omega

end Included

/-! ## Expanding a tree -/

section Expand

variable {w : Weight} {n : Nat} {load : Loader BuildM}

lemma succeeds_expandInlines_of {ts : List Inline}
    (h : ∀ t ∈ ts, Succeeds (expandInline load t) fun t' =>
      t'.height w ≤ t.height (w.onDirectives n)) :
    Succeeds (expandInlines load ts) fun ts' =>
      Inline.heightAll w ts' ≤ Inline.heightAll (w.onDirectives n) ts := by
  induction ts with
  | nil =>
    rw [expandInlines]
    exact Succeeds.pure (by simp)
  | cons t ts ih =>
    rw [expandInlines]
    refine Succeeds.bind (h t List.mem_cons_self) fun t' ht => ?_
    refine Succeeds.bind (ih fun u hu => h u (List.mem_cons_of_mem _ hu)) fun ts' hts => ?_
    refine Succeeds.pure ?_
    rw [Inline.heightAll_cons, Inline.heightAll_cons]
    exact max_le_max ht hts

lemma succeeds_expandBlocks_of {bs : List Block}
    (h : ∀ b ∈ bs, Succeeds (expandBlock load b) fun b' =>
      b'.height w ≤ b.height (w.onDirectives n)) :
    Succeeds (expandBlocks load bs) fun bs' =>
      Block.heightAll w bs' ≤ Block.heightAll (w.onDirectives n) bs := by
  induction bs with
  | nil =>
    rw [expandBlocks]
    exact Succeeds.pure (by simp)
  | cons b bs ih =>
    rw [expandBlocks]
    refine Succeeds.bind (h b List.mem_cons_self) fun b' hb => ?_
    refine Succeeds.bind (ih fun d hd => h d (List.mem_cons_of_mem _ hd)) fun bs' hbs => ?_
    refine Succeeds.pure ?_
    rw [Block.heightAll_cons, Block.heightAll_cons]
    exact max_le_max hb hbs

/-- What is loaded for a directive may stand in its place if it weighs `n` at most. -/
structure Loader.IsBounded (load : Loader BuildM) (w : Weight) (n : Nat) : Prop where
  succeeds : ∀ d span, Succeeds (load d span) fun found => ∀ path root, found = some (path, root) →
    w.block .included + root.height w ≤ n ∧ w.inline .included + root.height w ≤ n

variable (hw : w.IsPlain) (hload : load.IsBounded w n)

include hw hload

lemma succeeds_expandInline (t : Inline) :
    Succeeds (expandInline load t) fun t' => t'.height w ≤ t.height (w.onDirectives n) := by
  induction t using Inline.induction with
  | leaf h c =>
    cases c with
    | directive d =>
      rw [expandInline]
      refine Succeeds.bind (hload.succeeds d h.span) fun found hfound => ?_
      cases found with
      | none => exact Succeeds.pure (by simp [Inline.Leaf.kind, hw.rawInline])
      | some found =>
        refine Succeeds.pure ?_
        have hroot := (hfound found.1 found.2 rfl).2
        have hle := Inline.heightAll_includedInlines_le hw.text found.2
        simp only [Inline.height_node, Inline.height_leaf, Inline.Frame.kind, Inline.Leaf.kind,
          Weight.onDirectives, if_true]
        omega
    | _ => exact Succeeds.pure (by simp [Inline.Leaf.kind, Weight.onDirectives])
  | node h f ts ih =>
    rw [expandInline]
    refine Succeeds.bind (succeeds_expandInlines_of ih) fun ts' hts => Succeeds.pure ?_
    rw [Inline.height_node, Inline.height_node, Weight.onDirectives_inlineFrame]
    exact Nat.add_le_add_left hts _

lemma succeeds_expandInlines (ts : List Inline) :
    Succeeds (expandInlines load ts) fun ts' =>
      Inline.heightAll w ts' ≤ Inline.heightAll (w.onDirectives n) ts :=
  succeeds_expandInlines_of fun t _ => succeeds_expandInline hw hload t

lemma succeeds_expandRows (rows : List (List Inline)) :
    Succeeds (rows.mapM (expandInlines load)) fun rows' =>
      Inline.heightRows w rows' ≤ Inline.heightRows (w.onDirectives n) rows :=
  (Succeeds.mapM rows fun ts _ => succeeds_expandInlines hw hload ts).imp
    fun _ h => Inline.heightRows_le_of_forall₂ h

lemma succeeds_expandLeaf {c : Block.Leaf} (hc : c.kind ≠ .directive) :
    Succeeds (expandLeaf load c) fun c' => c'.height w ≤ c.height (w.onDirectives n) := by
  have hrow {c : List Inline → Block.Leaf} (tag : BlockTag) {content : List Inline}
      (htag : tag ≠ .directive) (hkind : ∀ ts, (c ts).kind = tag)
      (hinlines : ∀ ts, (c ts).inlines = [ts]) :
      Succeeds (expandInlines load content >>= fun ts => Pure.pure (c ts)) fun c' =>
        c'.height w ≤ (c content).height (w.onDirectives n) := by
    refine Succeeds.bind (succeeds_expandInlines hw hload content) fun ts hts => Succeeds.pure ?_
    simpa [Block.Leaf.height, hkind, hinlines, Weight.onDirectives, htag] using hts
  cases c with
  | heading => exact hrow .heading (by decide) (fun _ => rfl) fun _ => rfl
  | paragraph => exact hrow .paragraph (by decide) (fun _ => rfl) fun _ => rfl
  | text => exact hrow .text (by decide) (fun _ => rfl) fun _ => rfl
  | table align header rows =>
    rw [expandLeaf]
    refine Succeeds.bind (succeeds_expandRows hw hload header) fun header' hheader => ?_
    have hcells := Succeeds.mapM (f := (·.mapM (expandInlines load))) rows
      fun row _ => succeeds_expandRows hw hload row
    refine Succeeds.bind hcells fun rows' hrows => Succeeds.pure ?_
    have hflat := Inline.heightRows_flatten_le_of_forall₂ hrows
    simp only [Block.Leaf.height, Block.Leaf.inlines, Inline.heightRows_append]
    exact Nat.add_le_add (by simp [Block.Leaf.kind, Weight.onDirectives])
      (max_le_max hheader hflat)
  | directive => exact absurd rfl hc
  | _ =>
    refine Succeeds.pure ?_
    simp [Block.Leaf.height, Block.Leaf.kind, Block.Leaf.inlines, Weight.onDirectives]

/-- An expanded tree is no higher than the tree with its directives was, each of them counted at
what may be put in its place. -/
lemma succeeds_expandBlock (b : Block) :
    Succeeds (expandBlock load b) fun b' => b'.height w ≤ b.height (w.onDirectives n) := by
  induction b using Block.induction with
  | leaf h c =>
    by_cases hc : c.kind = .directive
    · obtain ⟨d, rfl⟩ := Block.Leaf.exists_of_kind_directive hc
      rw [expandBlock]
      refine Succeeds.bind (hload.succeeds d h.span) fun found hfound => ?_
      cases found with
      | none =>
        exact Succeeds.pure
          (by simp [Block.Leaf.height, Block.Leaf.kind, Block.Leaf.inlines, hw.rawBlock])
      | some found =>
        refine Succeeds.pure ?_
        have hroot := (hfound found.1 found.2 rfl).1
        have hle := Block.heightAll_includedBlocks_le (w := w) found.2
        simp only [Block.height_node, Block.height_leaf, Block.Leaf.height, Block.Frame.kind,
          Block.Leaf.kind, Weight.onDirectives, if_true]
        omega
    · rw [expandBlock_leaf hc]
      refine Succeeds.bind (succeeds_expandLeaf hw hload hc) fun c' hc' => Succeeds.pure ?_
      rw [Block.height_leaf, Block.height_leaf]
      exact hc'
  | node h f bs ih =>
    rw [expandBlock]
    refine Succeeds.bind (succeeds_expandBlocks_of ih) fun bs' hbs => Succeeds.pure ?_
    rw [Block.height_node, Block.height_node, Weight.onDirectives_blockFrame]
    exact Nat.add_le_add_left hbs _

end Expand

/-! ## Building files -/

lemma rebaseIncluded_succeeds (file : Option Path) (path : Path) (root : Block) :
    Succeeds (rebaseIncluded file path root) fun root' =>
      ∀ wt, root'.height wt ≤ root.height wt := by
  have hkeep : Succeeds (Pure.pure root) fun root' : Block =>
      ∀ wt, root'.height wt ≤ root.height wt :=
    Succeeds.pure fun _ => le_rfl
  simp only [rebaseIncluded]
  split
  next =>
    split
    · exact hkeep
    · exact (LinkRebase.rewriter_isGentle _).pass _ root
  next => exact hkeep

/-- What was read holds no included content. -/
lemma readWith_inclusions {rules : RuleSet} (hrules : rules.IsStandard) {defs : Definitions}
    {scope : Scope} {text : Text} {root : Block}
    (h : (readWith rules defs scope text).1 = .ok root) : root.height .inclusions = 0 := by
  obtain ⟨hnodes, hinlines⟩ := readWith_isRead hrules h
  obtain ⟨bs, bs', -, -, rfl⟩ := readWith_ok h
  refine Block.height_eq_zero.2 ⟨?_, ?_⟩
  · refine Block.forall_nodes_node.2 ⟨rfl, fun b hb n hn => ?_⟩
    have hkind : n.kind ≠ .included := fun hkind => hnodes b hb n hn (by simp [hkind])
    simp [Weight.inclusions, hkind]
  · intro t ht
    have hkind : t.kind ≠ .included := fun hkind => hinlines t ht (by simp [hkind])
    simp [Weight.inclusions, hkind]

/-- An engine whose rules read every text and whose passes only do what passes of a build do by
themselves. -/
structure Engine.IsPlain (e : Engine) : Prop where
  rules : e.rules.IsStandard
  text : e.rules.HasText
  passes : ∀ p ∈ e.passes, Pass.IsGentle p

namespace Engine

variable {e : Engine}

/-- A loader succeeds if the files that it may enter are built, and what it loads has what the moving
of links leaves to what was built. -/
lemma loadIn_succeeds {Q R : Block → Prop} {chain : IncludeChain} {file : Option Path}
    (hnext : ∀ p ∈ e.resolver.known, chain.holds p = false → ∀ scope file text,
      Succeeds (e.process (chain ++ [p]) scope file text) Q)
    (hmove : ∀ path root, Q root → Succeeds (rebaseIncluded file path root) R) (d : Directive)
    (span : Span) :
    Succeeds (e.loadIn chain file d span) fun found =>
      ∀ path root, found = some (path, root) → R root := by
  have hreport (kind : DiagnosticKind) (message : Text) :
      Succeeds (do reportAt file span kind message; Pure.pure (none : Option (Path × Block)))
        fun found => ∀ path root, found = some (path, root) → R root :=
    fun _ => ⟨none, rfl, by simp⟩
  simp only [loadIn]
  split
  next => exact hreport _ _
  next found hfound =>
    have hknown := e.resolver.resolve_known _ _ _ hfound
    split
    next => exact hreport _ _
    next hopen =>
      refine Succeeds.bind (hnext _ hknown (by simpa using hopen) _ _ _) fun root hroot => ?_
      refine Succeeds.bind (hmove found.path root hroot) fun root' hroot' => ?_
      refine Succeeds.pure ?_
      rintro _ _ ⟨⟩
      exact hroot'

/-- A loader has what the files that it may enter have. -/
lemma loadIn_isBounded {w : Weight} {n : Nat} {chain : IncludeChain} {file : Option Path}
    (hnext : ∀ p ∈ e.resolver.known, chain.holds p = false → ∀ scope file text,
      Succeeds (e.process (chain ++ [p]) scope file text) fun root =>
        w.block .included + root.height w ≤ n ∧ w.inline .included + root.height w ≤ n) :
    (e.loadIn chain file).IsBounded w n where
  succeeds d span := by
    refine loadIn_succeeds hnext (fun path root hroot => ?_) d span
    refine (rebaseIncluded_succeeds file path root).imp fun root' hle => ?_
    have := hle w
    omega

variable (he : e.IsPlain)

include he

lemma allPasses_isGentle : ∀ p ∈ e.allPasses, Pass.IsGentle p := by
  intro p hp
  simp only [allPasses, List.mem_append] at hp
  rcases hp with (hp | hp) | hp
  · split at hp
    · rw [List.mem_singleton.1 hp]
      exact headingIdRewriter_isGentle.pass
    · cases hp
  · exact he.passes p hp
  · split at hp
    · cases hp
    · rw [List.mem_singleton.1 hp]
      exact (validatorGroup_isGentle _).pass

/-- The tree of a file before expansion holds no included content. -/
lemma prepare_succeeds (scope : Scope) (file : Option Path) (text : Text) :
    Succeeds (e.prepare scope file text) fun root =>
      ∀ n, root.height (Weight.inclusions.onDirectives n) ≤ n := by
  obtain ⟨root, hroot⟩ := exists_readWith he.rules he.text [] scope text
  have hzero := readWith_inclusions he.rules hroot
  have hread : Succeeds ((read e.rules scope text : Except Fault Block) : BuildM Block)
      fun r => r = root := Succeeds.lift hroot rfl
  refine Succeeds.bind hread ?_
  rintro r rfl
  refine (runPasses_isGentle (allPasses_isGentle he) file r).imp fun root' hle n => ?_
  exact (hle _).trans (Block.height_onDirectives_le hzero)

/-- What the files that may be entered next have, a file passes on to its own tree. -/
lemma process_step {n : Nat} {chain : IncludeChain}
    (hnext : ∀ p ∈ e.resolver.known, chain.holds p = false → ∀ scope file text,
      Succeeds (e.process (chain ++ [p]) scope file text) fun root =>
        root.height .directives = 0 ∧ root.inclusionDepth < n)
    (scope : Scope) (file : Option Path) (text : Text) :
    Succeeds (e.process chain scope file text) fun root =>
      root.height .directives = 0 ∧ root.inclusionDepth ≤ n := by
  have hdirectives : (e.loadIn chain file).IsBounded .directives 0 := by
    refine loadIn_isBounded fun p hknown hp scope file text => ?_
    refine (hnext p hknown hp scope file text).imp fun root hroot => ?_
    rw [hroot.1]
    exact ⟨le_rfl, le_rfl⟩
  have hinclusions : (e.loadIn chain file).IsBounded .inclusions n := by
    refine loadIn_isBounded fun p hknown hp scope file text => ?_
    refine (hnext p hknown hp scope file text).imp fun root hroot => ?_
    have hdepth : root.height .inclusions < n := hroot.2
    simp only [Weight.inclusions, if_true] at hdepth ⊢
    omega
  rw [process_eq]
  refine Succeeds.bind (prepare_succeeds he scope file text) fun root hroot => ?_
  have hexpand := (succeeds_expandBlock Weight.directives_isPlain hdirectives root).and
    (succeeds_expandBlock Weight.inclusions_isPlain hinclusions root)
  refine hexpand.imp fun root' h => ⟨?_, h.2.trans (hroot n)⟩
  have hzero : root.height (Weight.directives.onDirectives 0) = 0 := by
    rw [Block.height_eq_zero]
    simp only [Weight.onDirectives, Weight.directives]
    exact ⟨fun n _ => by split <;> rfl, fun t _ => by split <;> rfl⟩
  rw [hzero] at h
  exact Nat.le_zero.1 h.1

/-- **A file is built.**  The build succeeds, leaves no directive at any depth, and nests included
content no deeper than there are files that are not open. -/
theorem process_succeeds {n : Nat} {chain : IncludeChain} (hn : (e.closedFiles chain).length ≤ n)
    (scope : Scope) (file : Option Path) (text : Text) :
    Succeeds (e.process chain scope file text) fun root =>
      root.height .directives = 0 ∧ root.inclusionDepth ≤ n := by
  induction n generalizing chain scope file text with
  | zero =>
    refine process_step he (fun p hknown hp => ?_) scope file text
    -- there is no file left to enter
    have hlt := e.closedFiles_enter_lt hknown hp
    omega
  | succ n ih =>
    refine process_step he (fun p hknown hp scope file text => ?_) scope file text
    have hlt := e.closedFiles_enter_lt hknown hp
    exact (ih (by omega) scope file text).imp fun root h => ⟨h.1, Nat.lt_succ_of_le h.2⟩

end Engine

/-! ## Documents -/

namespace Engine

/-- The engine with its files in memory. -/
def overFiles (e : Engine) (files : MemoryFiles) : Engine := { e with resolver := files.resolver }

/-- The engine with the rules of a dialect, and no further passes. -/
def ofFlavor (e : Engine) (flavor : Flavor) : Engine :=
  { e with rules := flavor.rules, passes := [] }

lemma ofFlavor_isPlain (e : Engine) (flavor : Flavor) (files : MemoryFiles) :
    ((e.ofFlavor flavor).overFiles files).IsPlain where
  rules := flavor.rules_isStandard
  text := flavor.rules_hasText
  passes := by simp [ofFlavor, overFiles]

lemma closedFiles_overFiles_le (e : Engine) (files : MemoryFiles) (chain : IncludeChain) :
    ((e.overFiles files).closedFiles chain).length ≤ files.length := by
  refine (List.length_filter_le _ _).trans ?_
  simp [overFiles, MemoryFiles.resolver]

/-- **Inclusion ends.**  Whatever the files in memory include, with any rules and any passes:
expanding a tree comes to an end, well or badly, and leaves the chain of open files as it was; so
does the build of a document, which yields what `Engine.parse` yields; and no chain that is held on
the way repeats a file.  With the rules of a dialect the build succeeds, no directive is left at any
depth of its tree, and included content is nested at most as deep as there are files. -/
theorem inclusion_ends (e : Engine) (files : MemoryFiles) (source : Source) :
    (∀ fuel, files.length ≤ fuel → ∀ file root s, ∃ r journal held,
      (e.overFiles files).runExpand fuel file root s =
          some (r, ⟨journal, s.chain, held ++ s.held⟩) ∧
        (s.chain.IsDistinct → ∀ c ∈ held, c.IsDistinct)) ∧
    (∀ fuel, files.length < fuel → ∃ journal held,
      (e.overFiles files).runParse fuel source =
          some ((e.overFiles files).parse source,
            ⟨journal, (source.path.map e.canonicalPath).toList, held⟩) ∧
        ∀ c ∈ held, c.IsDistinct) ∧
    ∀ flavor, ∃ d, ((e.ofFlavor flavor).overFiles files).parse source = .ok d ∧
      (∀ n ∈ d.root.nodes, n.kind ≠ .directive) ∧
      (∀ t ∈ d.root.inlineNodes, t.kind ≠ .directive) ∧
      d.root.inclusionDepth ≤ files.length := by
  refine ⟨?_, ?_, ?_⟩
  · intro fuel hfuel file root s
    have hclosed := closedFiles_overFiles_le e files s.chain
    have htracks : Tracks s.chain ((e.overFiles files).runExpand fuel file root) _ :=
      tracks_runExpand (hclosed.trans hfuel) file root
    obtain ⟨held, hrun, hheld⟩ := htracks s rfl
    exact ⟨_, _, held, hrun, hheld⟩
  · intro fuel hfuel
    have hclosed := closedFiles_overFiles_le e files (source.path.map e.canonicalPath).toList
    exact runParse_eq (e := e.overFiles files) (lt_of_le_of_lt hclosed hfuel)
  · intro flavor
    set e' := (e.ofFlavor flavor).overFiles files
    have he : e'.IsPlain := ofFlavor_isPlain e flavor files
    set chain : IncludeChain := (source.path.map e'.canonicalPath).toList with hchain
    have hclosed : (e'.closedFiles chain).length ≤ files.length :=
      closedFiles_overFiles_le (e.ofFlavor flavor) files chain
    obtain ⟨root, hroot, hdirectives, hdepth⟩ :=
      process_succeeds he hclosed Scope.document source.path source.content {}
    have hparse : ∃ d, e'.parse source = .ok d ∧ d.root = root := by
      simp only [parse, ← hchain]
      cases hp : e'.process chain Scope.document source.path source.content {} with
      | mk r journal =>
        rw [hp] at hroot
        cases hroot
        exact ⟨_, rfl, rfl⟩
    obtain ⟨d, hd, rfl⟩ := hparse
    obtain ⟨hblocks, hinlines⟩ := Block.directives_height_eq_zero.1 hdirectives
    exact ⟨d, hd, hblocks, hinlines, hdepth⟩

end Engine

end Docmark
