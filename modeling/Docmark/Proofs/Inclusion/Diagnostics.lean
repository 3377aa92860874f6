import Mathlib
import Docmark.Proofs.Inclusion.Build
import Docmark.Proofs.Reading.Locations
import Docmark.Proofs.Rewrite.HeadingIds

/-!
# Where diagnostics point

A document is told what is wrong with its raw HTML and with its directives, at the places that their
tokens give.  This module bounds what may be reported from above: every diagnostic of a document is
about raw HTML or a directive in the tree that was read for one of the files, and names that file
and a point that is counted from the start of the token.  So a diagnostic is as right about its
place as the token is (`readWith_pointsHome`).

## Main results

* `Engine.diagnostics_point_home` — what the diagnostics of a document are about, and where they
  point.
* `Engine.quoted_tag_astray` — a tag in a quote, told at the start of the quote.
-/

namespace Docmark

/-! ## Directives and raw HTML among the excerpts -/

/-- What one test finds, another finds in another form. -/
lemma Block.mem_collect_of_imp {α β : Type} {p : Token → Option α} {q : Token → Option β} {x : α}
    {y : β} (h : ∀ t, p t = some x → q t = some y) {b : Block} (hx : x ∈ b.collect p) :
    y ∈ b.collect q := by
  obtain ⟨t, ht, hx⟩ := List.mem_filterMap.1 hx
  exact List.mem_filterMap.2 ⟨t, ht, h t hx⟩

section Site

variable {b : Block} {s : Directive × Span}

lemma Block.mem_directives_of_site (hs : s ∈ b.sites) : s.1 ∈ b.directives := by
  refine mem_collect_of_imp (fun t ht => ?_) hs
  unfold Token.site? at ht
  split at ht <;> cases ht <;> rfl

lemma Block.mem_excerpts_of_site (hs : s ∈ b.sites) : ⟨s.2.start, s.1.raw⟩ ∈ b.excerpts := by
  refine mem_collect_of_imp (fun t ht => ?_) hs
  unfold Token.site? at ht
  split at ht <;> cases ht <;> rfl

lemma Block.mem_excerpts_of_html {x : RawHtml} (hx : x ∈ b.rawHtml) :
    ⟨x.head.span.start, x.text⟩ ∈ b.excerpts := by
  refine mem_collect_of_imp (fun t ht => ?_) hx
  unfold Token.html? at ht
  split at ht <;> cases ht <;> rfl

end Site

/-! ## Expansion -/

section Expand

variable {load : Loader BuildM} {D : Set Diagnostic}

/-- Expanding a tree reports nothing but what loading the targets of its directives does. -/
lemma reportsOnly_expandBlock (b : Block)
    (hload : ∀ s ∈ b.sites, ReportsOnly (load s.1 s.2) (fun _ => True) D) :
    ReportsOnly (expandBlock load b) (fun _ => True) D := by
  have hcomposed : IsComposed fun α (a : BuildM α) (_ : BuildM α) =>
      ReportsOnly a (fun _ => True) D :=
    ⟨fun _ => ReportsOnly.pure trivial, fun ha hf => ha.bind fun x _ => hf x⟩
  exact expandBlock_related hcomposed load load b hload

end Expand

/-! ## The tree of a file -/

/-- The content of a heading loses tokens at its front only. -/
lemma leadingAnchor?_suffix {content : List Inline} {p : Text × List Inline}
    (h : leadingAnchor? content = some p) : p.2 <:+ content := by
  simp only [leadingAnchor?] at h
  split at h
  next opening closing rest =>
    split at h
    next =>
      obtain ⟨id, -, rfl⟩ := Option.map_eq_some_iff.1 h
      exact ⟨[_, _], rfl⟩
    next => cases h
  next => cases h

/-- The pass that gives headings their ids drops tokens at most: a leading anchor. -/
lemma headingIdRewriter_block_excerpts (file : Option Path) (b : Block) :
    Yields (headingIdRewriter.block file b) fun r => ∀ b' ∈ r, b'.excerpts ⊆ b.excerpts := by
  have hkeep : Yields (S := UsedIds × Journal) (Pure.pure (some b)) fun r =>
      ∀ b' ∈ r, b'.excerpts ⊆ b.excerpts := Yields.pure (by simp)
  cases b with
  | node h f bs => exact hkeep
  | leaf h c =>
    cases c with
    | heading depth id content =>
      cases id with
      | some id => exact hkeep
      | none =>
        intro s b' hb' x hx
        cases hb'
        refine Block.mem_collect_leaf.2 ?_
        rcases Block.mem_collect_leaf.1 hx with hx | ⟨ts, hts, t, ht, hx⟩
        · cases hx
        · refine .inr ⟨content, List.mem_singleton_self content, t, ?_, hx⟩
          rw [List.mem_singleton.1 hts] at ht
          cases hanchor : leadingAnchor? content with
          | none =>
            rw [hanchor] at ht
            exact ht
          | some p =>
            rw [hanchor] at ht
            exact (leadingAnchor?_suffix hanchor).subset ht
    | _ => exact hkeep

section Headings

variable {file : Option Path}

lemma headingIdRewriter_visitBlocks_excerpts {bs : List Block}
    (h : ∀ b ∈ bs, Yields (headingIdRewriter.visitBlock file b) fun r =>
      ∀ b' ∈ r, b'.excerpts ⊆ b.excerpts) :
    Yields (headingIdRewriter.visitBlocks file bs) fun bs' =>
      ∀ b' ∈ bs', ∃ b ∈ bs, b'.excerpts ⊆ b.excerpts := by
  induction bs with
  | nil =>
    rw [Rewriter.visitBlocks]
    exact Yields.pure (by simp)
  | cons b bs ih =>
    rw [Rewriter.visitBlocks]
    refine Yields.bind (h b List.mem_cons_self) fun r hr => ?_
    refine Yields.bind (ih fun d hd => h d (List.mem_cons_of_mem _ hd)) fun bs' hbs' => ?_
    refine Yields.pure fun b' hb' => ?_
    rcases List.mem_append.1 hb' with hb' | hb'
    · exact ⟨b, List.mem_cons_self, hr b' (Option.mem_toList.1 hb')⟩
    · obtain ⟨d, hd, hsub⟩ := hbs' b' hb'
      exact ⟨d, List.mem_cons_of_mem _ hd, hsub⟩

/-- Blocks with excerpts from the blocks of a container make a container with excerpts from it. -/
lemma Block.excerpts_node_subset {h : Head} {f : Block.Frame} {bs bs' : List Block}
    (hbs : ∀ b' ∈ bs', ∃ b ∈ bs, b'.excerpts ⊆ b.excerpts) :
    (Block.node h f bs').excerpts ⊆ (Block.node h f bs).excerpts := by
  intro x hx
  rcases Block.mem_collect_node.1 hx with hx | ⟨b', hb', hx⟩
  · cases hx
  · obtain ⟨b, hb, hsub⟩ := hbs b' hb'
    exact Block.mem_collect_node.2 (.inr ⟨b, hb, hsub hx⟩)

lemma headingIdRewriter_visitBlock_excerpts (b : Block) :
    Yields (headingIdRewriter.visitBlock file b) fun r => ∀ b' ∈ r, b'.excerpts ⊆ b.excerpts := by
  induction b using Block.induction with
  | leaf h c =>
    -- inlines are left alone
    rw [Rewriter.visitBlock, Rewriter.visitLeaf_keeps fun _ => rfl, pure_bind]
    exact headingIdRewriter_block_excerpts file _
  | node h f bs ih =>
    rw [Rewriter.visitBlock]
    refine Yields.bind (headingIdRewriter_visitBlocks_excerpts ih) fun bs' hbs' => ?_
    refine Yields.pure fun b' hb' => ?_
    cases hb'
    exact Block.excerpts_node_subset hbs'

/-- The tree with heading ids has its excerpts from the tree without. -/
lemma headingIdRewriter_pass_excerpts (file : Option Path) (h : Head) (f : Block.Frame)
    (bs : List Block) :
    Succeeds (headingIdRewriter.pass file (.node h f bs)) fun root =>
      root.excerpts ⊆ (Block.node h f bs).excerpts := by
  intro j
  have hblocks : ∀ b' ∈ (headingIdRewriter.visitBlocks file bs ([], j)).1,
      ∃ b ∈ bs, b'.excerpts ⊆ b.excerpts :=
    headingIdRewriter_visitBlocks_excerpts
      (fun b _ => headingIdRewriter_visitBlock_excerpts b) ([], j)
  exact ⟨_, rfl, Block.excerpts_node_subset hblocks⟩

end Headings

namespace Engine

variable {e : Engine} {rules : List TagRule}

/-- A tree is what was read for a file, before any pass. -/
def HasSource (e : Engine) (f : OpenFile) (source : Block) : Prop :=
  read e.rules f.scope f.text = .ok source

/-- Heading ids are given in silence, to a tree that keeps its excerpts. -/
lemma exists_headings (e : Engine) (file : Option Path) (h : Head) (f : Block.Frame)
    (bs : List Block) :
    ∃ root : Block, root.excerpts ⊆ (Block.node h f bs).excerpts ∧ ReportsOnly
      (runPasses (if e.headingIds then [headingIdRewriter.pass] else []) file (.node h f bs))
      (fun r => r = root) ∅ := by
  split
  · rw [runPasses_singleton]
    obtain ⟨r, hquiet⟩ := headingIdRewriter_isQuiet.pass file (.node h f bs)
    obtain ⟨root, hroot, hsub⟩ := headingIdRewriter_pass_excerpts file h f bs {}
    rw [hquiet] at hroot
    refine ⟨root, hsub, fun j => ?_⟩
    rw [hquiet j]
    exact ⟨fun x hx => Except.ok.inj (hx.symm.trans hroot), fun d hd => .inl hd⟩
  · exact ⟨_, List.Subset.refl _, ReportsOnly.pure rfl⟩

/-- The checks report what the rules have to say and nothing else. -/
lemma checks_reportsOnly (he : e.IsChecking rules) (file : Option Path) (root : Block) :
    ReportsOnly
      (runPasses (if e.validators.isEmpty then [] else [(Validator.group e.validators).pass])
        file root)
      (fun r => r = root) {d | d ∈ TagRule.reportsOn rules file root} := by
  rw [he.validators]
  by_cases hrules : rules.isEmpty = true
  · rw [if_pos hrules]
    exact ReportsOnly.pure rfl
  · rw [if_neg hrules, List.isEmpty_cons, if_neg Bool.false_ne_true, runPasses_singleton]
    intro j
    rw [Validator.group_pass, TagRule.lookAt_diagnostics]
    exact ⟨fun x hx => (Except.ok.inj hx).symm, fun d hd => List.mem_append.1 hd⟩

/-- The tree of a file has its excerpts from what was read for the file, and preparing it reports
what the rules have to say about it and nothing else. -/
lemma exists_prepare (he : e.IsChecking rules) (f : OpenFile) :
    ∃ source root, e.HasSource f source ∧ root.excerpts ⊆ source.excerpts ∧
      ReportsOnly (e.prepare f.scope f.path f.text) (fun r => r = root)
        {d | d ∈ TagRule.reportsOn rules f.path root} := by
  obtain ⟨source, hsource⟩ := exists_readWith he.plain.rules he.plain.text [] f.scope f.text
  obtain ⟨bs, bs', -, -, rfl⟩ := readWith_ok hsource
  obtain ⟨root, hsub, hheadings⟩ := e.exists_headings f.path
    ⟨"document", ⟨Point.start, Point.start.advance f.text⟩⟩ .document bs'
  refine ⟨_, root, hsource, hsub, ?_⟩
  have hread : ReportsOnly ((read e.rules f.scope f.text : Except Fault Block) : BuildM Block)
      (fun r => r = Block.ofDocument f.text bs') {d | d ∈ TagRule.reportsOn rules f.path root} := by
    intro j
    simp only [read, hsource]
    exact ⟨fun x hx => (Except.ok.inj hx).symm, fun d hd => .inl hd⟩
  refine hread.bind ?_
  rintro r rfl
  rw [allPasses, he.passes, List.append_nil, runPasses_append]
  refine (hheadings.mono (Set.empty_subset _)).bind ?_
  rintro r rfl
  exact checks_reportsOnly he f.path r

end Engine

/-! ## Diagnostics about excerpts -/

/-- How a tag starts in raw HTML. -/
def HtmlTag.opening (tag : HtmlTag) : Text := '<' :: (if tag.closing then ['/'] else []) ++ tag.name

lemma tagAt?_opening {offset : Nat} {cs : Text} {tag : HtmlTag} (h : tagAt? offset cs = some tag) :
    tag.offset = offset ∧ tag.opening <+: '<' :: cs := by
  simp only [tagAt?, Option.ite_none_right_eq_some] at h
  obtain ⟨-, h⟩ := h
  cases h
  refine ⟨rfl, ?_⟩
  simp only [HtmlTag.opening]
  split
  next hclosing =>
    cases cs with
    | nil => simp at hclosing
    | cons c cs =>
      obtain rfl : c = '/' := by simpa using hclosing
      simpa using List.takeWhile_prefix _
  next => simpa using List.takeWhile_prefix _

/-- A tag in raw HTML starts where it is said to. -/
lemma opening_of_mem_htmlTags {html : Text} {tag : HtmlTag} (h : tag ∈ htmlTags html) :
    tag.opening <+: html.drop tag.offset := by
  have hstep {offset : Nat} {c : Char} {cs : Text}
      (h : offset + 1 ≤ tag.offset ∧ tag.opening <+: cs.drop (tag.offset - (offset + 1))) :
      offset ≤ tag.offset ∧ tag.opening <+: (c :: cs).drop (tag.offset - offset) := by
    obtain ⟨k, hk⟩ := Nat.exists_eq_add_of_le h.1
    have hdrop : tag.offset - offset = tag.offset - (offset + 1) + 1 := by omega
    rw [hdrop, List.drop_succ_cons]
    exact ⟨by omega, h.2⟩
  have hfrom (offset skip : Nat) (cs : Text) : tag ∈ tagsFrom offset skip cs →
      offset ≤ tag.offset ∧ tag.opening <+: cs.drop (tag.offset - offset) := by
    fun_induction tagsFrom offset skip cs with
    | case1 => simp
    | case2 offset c cs skip ih => exact fun h => hstep (ih h)
    | case3 offset cs _ n _ ih => exact fun h => hstep (ih h)
    | case4 => simp
    | case5 offset cs _ ih =>
      intro h
      rcases List.mem_append.1 h with h | h
      · obtain ⟨hoffset, hopening⟩ := tagAt?_opening (Option.mem_toList.1 h)
        rw [hoffset, Nat.sub_self]
        exact ⟨le_rfl, hopening⟩
      · exact hstep (ih h)
    | case6 offset c cs _ ih => exact fun h => hstep (ih h)
  simpa using (hfrom 0 0 html h).2

/-- A diagnostic gives a point of a file as its place. -/
def Diagnostic.IsAt (r : Diagnostic) (file : Option Path) (p : Point) : Prop :=
  r.file = file ∧ r.line = p.line ∧ r.column = p.column

/-- A diagnostic points into an excerpt from a file, to where `offending` stands in it: to the start
of a tag if that is what it is about, and to the start of the excerpt, a directive, if not. -/
def Diagnostic.PointsInto (r : Diagnostic) (file : Option Path) (x : Excerpt) (offending : Text) :
    Prop :=
  ∃ skipped, x.text = skipped ++ offending ∧ r.IsAt file (x.start.advance skipped) ∧
    if r.kind = .disallowedTag then
      ∃ tag ∈ htmlTags x.text, skipped = x.text.take tag.offset ∧ tag.opening <+: offending
    else skipped = []

lemma TagRule.report_pointsInto {r : TagRule} {file : Option Path} {x : Excerpt} {tag : HtmlTag}
    (htag : tag ∈ htmlTags x.text) :
    (r.report file x.start x.text tag).PointsInto file x (x.text.drop tag.offset) :=
  ⟨x.text.take tag.offset, (List.take_append_drop _ _).symm, ⟨rfl, rfl, rfl⟩,
    tag, htag, rfl, opening_of_mem_htmlTags htag⟩

lemma Diagnostic.warning_pointsInto {kind : DiagnosticKind} (hkind : kind ≠ .disallowedTag)
    (message : Text) (file : Option Path) (x : Excerpt) :
    ((warning kind message).at_ file x.start).PointsInto file x x.text :=
  ⟨[], rfl, ⟨rfl, rfl, rfl⟩, by simp [at_, warning, hkind]⟩

/-- Where an excerpt stands in a text, what a diagnostic points to in it stands there as well. -/
lemma Diagnostic.PointsInto.standsIn {r : Diagnostic} {file : Option Path} {x : Excerpt}
    {offending text : Text} (h : r.PointsInto file x offending)
    (hx : x.StandsIn text Point.start) :
    ∃ before after, text = before ++ offending ++ after ∧
      r.IsAt file (Point.start.advance before) := by
  obtain ⟨skipped, htext, hat, -⟩ := h
  obtain ⟨before, after, rfl, hstart⟩ := hx
  refine ⟨before ++ skipped, after, by simp only [htext, List.append_assoc], ?_⟩
  rwa [Point.advance_append, ← hstart]

/-! ## What is told about the files of a build -/

lemma reportAt_reportsOnly {file : Option Path} {span : Span} {kind : DiagnosticKind}
    {message : Text} {D : Set Diagnostic}
    (h : (Diagnostic.warning kind message).at_ file span.start ∈ D) :
    ReportsOnly (reportAt file span kind message) (fun _ => True) D := by
  intro j
  refine ⟨fun _ _ => trivial, fun d hd => ?_⟩
  rcases List.mem_append.1 hd with hd | hd
  · exact .inl hd
  · rw [List.mem_singleton.1 hd]
    exact .inr h

lemma rebaseIncluded_reportsOnly (file : Option Path) (path : Path) (root : Block)
    {D : Set Diagnostic} : ReportsOnly (rebaseIncluded file path root) (fun _ => True) D := by
  simp only [rebaseIncluded]
  split
  next =>
    split
    · exact ReportsOnly.pure trivial
    · rw [LinkRebase.rewriter_pass]
      exact ReportsOnly.pure trivial
  next => exact ReportsOnly.pure trivial

namespace Engine

/-- What may be told in the build of a file: diagnostics that point into the excerpts of what was
read for the file or for one that is included from there on. -/
def told (e : Engine) (f : OpenFile) : Set Diagnostic :=
  {r | ∃ g source, Relation.ReflTransGen e.Includes f g ∧ e.HasSource g source ∧
    ∃ x ∈ source.excerpts, ∃ offending, r.PointsInto g.path x offending}

variable {e : Engine} {rules : List TagRule}

lemma told_of_includes {f g : OpenFile} (h : e.Includes f g) : e.told g ⊆ e.told f := by
  rintro r ⟨g', source, hreach, hr⟩
  exact ⟨g', source, .head h hreach, hr⟩

lemma told_of_pointsInto {f : OpenFile} {source : Block} (hsource : e.HasSource f source)
    {r : Diagnostic} {x : Excerpt} {offending : Text} (hx : x ∈ source.excerpts)
    (hr : r.PointsInto f.path x offending) : r ∈ e.told f :=
  ⟨f, source, .refl, hsource, x, hx, offending, hr⟩

/-- What the rules have to say about the tree of a file may be told. -/
lemma told_of_reportsOn {f : OpenFile} {source root : Block} (hsource : e.HasSource f source)
    (hsub : root.excerpts ⊆ source.excerpts) :
    {d | d ∈ TagRule.reportsOn rules f.path root} ⊆ e.told f := by
  intro r hr
  obtain ⟨x, hx, hr⟩ := List.mem_flatMap.1 hr
  obtain ⟨tag, htag, rule, -, -, rfl⟩ := TagRule.mem_reports.1 hr
  exact told_of_pointsInto hsource (hsub (Block.mem_excerpts_of_html hx))
    (TagRule.report_pointsInto (x := ⟨x.head.span.start, x.text⟩) htag)

/-- Loading the target of a directive reports what may be told, at the directive or further on. -/
lemma loadIn_reportsOnly {f : OpenFile} {source root : Block} (hsource : e.HasSource f source)
    (hroot : e.HasTree f root) (hsub : root.excerpts ⊆ source.excerpts)
    (hnext : ∀ found, found.path ∈ e.resolver.known → f.chain.holds found.path = false →
      ReportsOnly (e.buildFile (f.entering found)) (fun _ => True) (e.told (f.entering found)))
    {s : Directive × Span} (hs : s ∈ root.sites) :
    ReportsOnly (e.loadIn f.chain f.path s.1 s.2) (fun _ => True) (e.told f) := by
  have hwarning {kind : DiagnosticKind} (hkind : kind ≠ .disallowedTag) (message : Text) :
      ReportsOnly (do reportAt f.path s.2 kind message; Pure.pure (none : Option (Path × Block)))
        (fun _ => True) (e.told f) := by
    refine (reportAt_reportsOnly ?_).bind fun _ _ => ReportsOnly.pure trivial
    exact told_of_pointsInto hsource (hsub (Block.mem_excerpts_of_site hs))
      (Diagnostic.warning_pointsInto hkind message f.path ⟨s.2.start, s.1.raw⟩)
  simp only [loadIn]
  split
  next => exact hwarning (by decide) _
  next found hfound =>
    -- a file that is open already is told at the directive, and not entered
    split
    next => exact hwarning (by decide) _
    next hopen =>
      have hclosed : f.chain.holds found.path = false := by simpa using hopen
      have hincludes : e.Includes f (f.entering found) :=
        .directive hroot (Block.mem_directives_of_site hs) hfound hclosed
      have hbuild := hnext found (e.resolver.resolve_known _ _ _ hfound) hclosed
      refine (hbuild.mono (told_of_includes hincludes)).bind fun root' _ => ?_
      exact (rebaseIncluded_reportsOnly _ _ _).bind fun _ _ => ReportsOnly.pure trivial

/-- **What the build of a file reports.**  Every diagnostic points into an excerpt of what was read
for the file, or for a file that is included from there on. -/
theorem buildFile_reportsOnly (he : e.IsChecking rules) (f : OpenFile) :
    ReportsOnly (e.buildFile f) (fun _ => True) (e.told f) := by
  -- each file that is entered leaves fewer files to enter
  obtain ⟨chain, scope, file, text⟩ := f
  refine chain_induction (e := e) (P := fun chain => ∀ scope file text,
    ReportsOnly (e.buildFile ⟨chain, scope, file, text⟩) (fun _ => True)
      (e.told ⟨chain, scope, file, text⟩)) ?_ chain scope file text
  intro chain hnext scope file text
  obtain ⟨source, root, hsource, hsub, hprepare⟩ := exists_prepare he ⟨chain, scope, file, text⟩
  have hroot : e.HasTree ⟨chain, scope, file, text⟩ root := by
    obtain ⟨root', hreports⟩ := prepare_reports he scope file text
    obtain ⟨r, hr, -⟩ := hreports {}
    rw [HasTree, hr, (hprepare {}).1 r hr]
  rw [buildFile, process_eq]
  refine (hprepare.mono (told_of_reportsOn hsource hsub)).bind ?_
  rintro r rfl
  refine reportsOnly_expandBlock r fun s hs => loadIn_reportsOnly hsource hroot hsub ?_ hs
  intro found hknown hclosed
  exact hnext found.path hknown hclosed _ _ _

/-- A document is built, and what it reports may be told of its outermost file. -/
lemma exists_parse_told (he : e.IsChecking rules) (source : Source) :
    ∃ d, e.parse source = .ok d ∧ ∀ r ∈ d.diagnostics, r ∈ e.told (e.outermost source) := by
  have hclosed : (e.closedFiles (e.outermost source).chain).length ≤ _ := le_rfl
  obtain ⟨root, hroot, -⟩ :=
    process_succeeds he.plain hclosed Scope.document source.path source.content {}
  have htold := (buildFile_reportsOnly he (e.outermost source) {}).2
  obtain ⟨⟨r, journal⟩, hrun⟩ : ∃ outcome, e.buildFile (e.outermost source) {} = outcome := ⟨_, rfl⟩
  rw [hrun] at htold
  simp only [buildFile, outermost] at hrun hroot
  rw [hrun] at hroot
  cases hroot
  refine ⟨⟨source.path, root, journal.diagnostics, journal.remarks⟩, by simp only [parse, hrun], ?_⟩
  intro r hr
  exact (htold r hr).resolve_left (List.not_mem_nil)

/-- **Where diagnostics point.**  In every dialect, each block directly in a document covers a piece
of the text, and if it is read in place, the raw HTML and the directives in it stand in the text at
the points where they are said to start.

With the rules of a dialect, no further passes and some rules on HTML tags, a document is built,
whatever files include what, and every diagnostic points into raw HTML or a directive of what was
read for one of the files on the way: to a tag, if it is about one, and to the directive otherwise,
at the point that is counted from where the token is said to start.  So if that is where the token
stands in its file, the diagnostic gives the line and the column of the offending text. -/
theorem diagnostics_point_home (e : Engine) (flavor : Flavor) (files : MemoryFiles)
    (rules : List TagRule) (source : Source) :
    let e' := ((e.ofFlavor flavor).overFiles files).checking rules
    (∀ defs scope text, ∃ root, (readWith flavor.rules defs scope text).1 = .ok root ∧
      ∀ b ∈ root.children, b.PointsHome text Point.start) ∧
    ∃ d, e'.parse source = .ok d ∧ ∀ r ∈ d.diagnostics, ∃ g root,
      Relation.ReflTransGen e'.Includes (e'.outermost source) g ∧ e'.HasSource g root ∧
        ∃ x ∈ root.excerpts, ∃ offending, r.PointsInto g.path x offending ∧
          (x.StandsIn g.text Point.start → ∃ before after,
            g.text = before ++ offending ++ after ∧
              r.IsAt g.path (Point.start.advance before)) := by
  intro e'
  have he : e'.IsChecking rules := checking_isChecking e flavor files rules
  refine ⟨fun defs scope text => ?_, ?_⟩
  · obtain ⟨root, hroot⟩ := exists_readWith flavor.rules_isStandard flavor.rules_hasText defs scope
      text
    exact ⟨root, hroot, readWith_pointsHome flavor.rules_isStandard hroot⟩
  · obtain ⟨d, hd, htold⟩ := exists_parse_told he source
    refine ⟨d, hd, fun r hr => ?_⟩
    obtain ⟨g, root, hreach, hroot, x, hx, offending, hpoints⟩ := htold r hr
    exact ⟨g, root, hreach, hroot, x, hx, offending, hpoints, hpoints.standsIn⟩

/-- **A quoted tag is told astray.**  A quote is read without its marks, but from the place of the
first of them; so the tag in it is said to start where the quote does, and is told there. -/
theorem quoted_tag_astray :
    let text := "> <b>x\n".toList
    let e : Engine := (({} : Engine).ofFlavor .dfm).checking [{ tags := ["b".toList] }]
    (∃ root, (readWith dfmRules [] Scope.document text).1 = .ok root ∧
      root.excerpts = [⟨Point.start, "<b>".toList⟩]) ∧
    ¬ Excerpt.StandsIn ⟨Point.start, "<b>".toList⟩ text Point.start ∧
    (e.parse ⟨none, text⟩).toOption.map (fun d => d.diagnostics.map fun r => (r.line, r.column)) =
      some [(1, 1)] ∧
    text = "> ".toList ++ "<b>x\n".toList ∧ Point.start.advance "> ".toList = ⟨1, 3, 2⟩ := by
  refine ⟨by decide +kernel, fun h => ?_, by decide +kernel, by decide, by decide⟩
  exact absurd (h.initial rfl) (by decide)

end Engine

end Docmark
