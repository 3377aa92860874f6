import Mathlib
import Docmark.Proofs.Inclusion.Expansion
import Docmark.Proofs.Inclusion.Gathering
import Docmark.Proofs.Rewrite.Quiet
import Docmark.Proofs.Rewrite.Rebase
import Docmark.Proofs.Rewrite.Validation

/-!
# What the build of a file holds

A document is put together from the trees of many files: each of them is read and checked by itself,
before its directives are expanded, and what the directives lead to is moved into it afterwards.
This module tells which files are built on the way, and shows for any test of tokens that what is
found in a built tree was found in the tree of one of these files and carried up from there, while
everything that the rules on HTML tags have to say about these trees is reported.

## Main results

* `Engine.prepare_reports` — a file is checked in its own tree.
* `Engine.buildFile_gathers` — what the build of a file holds, and what it reports.
-/

namespace Docmark

/-! ## Raw HTML -/

/-- Raw HTML in a document: the head of its token, and its text. -/
structure RawHtml where
  head : Head
  text : Text

/-- The raw HTML that a token is. -/
def Token.html? : Token → Option RawHtml
  | .block (.leaf h (.html raw)) => some ⟨h, raw⟩
  | .inline (.leaf h (.tag raw)) => some ⟨h, raw⟩
  | _ => none

/-- The raw HTML in a tree. -/
def Block.rawHtml (b : Block) : List RawHtml := b.collect Token.html?

/-! ## What the rules have to say about a tree -/

namespace TagRule

variable {rules : List TagRule} {file : Option Path}

lemma covers_iff {r : TagRule} {tag : HtmlTag} : r.covers tag ↔
    (∃ name ∈ r.tags, lowerAscii name = lowerAscii tag.name) ∧ ¬ (r.openOnly ∧ tag.closing) := by
  simp only [covers, Bool.and_eq_true, Bool.not_eq_true', List.any_eq_true, beq_iff_eq]
  rw [and_comm, ← Bool.not_eq_true, Bool.and_eq_true]

lemma mem_reports {start : Point} {html : Text} {d : Diagnostic} :
    d ∈ reports rules file start html ↔
      ∃ tag ∈ htmlTags html, ∃ r ∈ rules, r.covers tag ∧ r.report file start html tag = d := by
  simp only [reports, List.mem_flatMap, List.mem_map, List.mem_filter, and_assoc]

/-- The reports on all raw HTML of a tree that belongs to a file. -/
def reportsOn (rules : List TagRule) (file : Option Path) (root : Block) : List Diagnostic :=
  root.rawHtml.flatMap fun x => reports rules file x.head.span.start x.text

lemma foldl_report_diagnostics (ds : List Diagnostic) (j : Journal) :
    (ds.foldl Journal.report j).diagnostics = j.diagnostics ++ ds := by
  induction ds generalizing j with
  | nil => simp
  | cons d ds ih => simp [ih, Journal.report]

/-- The validator adds the reports on the raw HTML that it is shown, and nothing for other
tokens. -/
lemma lookInTurn_diagnostics (x : Token) (j : Journal) :
    (Validator.lookInTurn [validator rules] file x j).diagnostics =
      j.diagnostics ++
        x.html?.toList.flatMap fun y => reports rules file y.head.span.start y.text := by
  have hhtml (h : Head) (raw : Text) :
      ((reports rules file h.span.start raw).foldl Journal.report j).diagnostics =
        j.diagnostics ++ [(⟨h, raw⟩ : RawHtml)].flatMap fun y =>
          reports rules file y.head.span.start y.text := by
    rw [foldl_report_diagnostics, List.flatMap_singleton]
  have hother : j.diagnostics = j.diagnostics ++ ([] : List RawHtml).flatMap fun y =>
      reports rules file y.head.span.start y.text := by
    rw [List.flatMap_nil, List.append_nil]
  cases x with
  | block b =>
    cases b with
    | leaf h c => cases c <;> first | exact hother | exact hhtml h _
    | node h f bs => exact hother
  | inline t =>
    cases t with
    | leaf h c => cases c <;> first | exact hother | exact hhtml h _
    | node h f ts => exact hother

lemma lookAt_diagnostics (root : Block) (j : Journal) :
    (Validator.lookAt [validator rules] file root.walk j).diagnostics =
      j.diagnostics ++ reportsOn rules file root := by
  have hall (xs : List Token) : ∀ j : Journal,
      (Validator.lookAt [validator rules] file xs j).diagnostics =
        j.diagnostics ++ (xs.filterMap Token.html?).flatMap fun y =>
          reports rules file y.head.span.start y.text := by
    induction xs with
    | nil => simp [Validator.lookAt]
    | cons x xs ih =>
      intro j
      have hstep : Validator.lookAt [validator rules] file (x :: xs) j =
          Validator.lookAt [validator rules] file xs
            (Validator.lookInTurn [validator rules] file x j) := rfl
      rw [hstep, ih, lookInTurn_diagnostics, List.append_assoc, ← List.flatMap_append]
      cases hx : x.html? <;> simp [hx]
  exact hall root.walk j

end TagRule

/-! ## Files that are built on the way -/

/-- A file in the course of a build: the open files, outermost first and itself the last one, the
scope in which it is read, its path if it has one, and its text. -/
structure OpenFile where
  chain : IncludeChain
  scope : Scope
  path : Option Path
  text : Text

/-- The file that is entered from another one when it was found for a directive. -/
def OpenFile.entering (f : OpenFile) (found : Resolved) : OpenFile :=
  ⟨f.chain ++ [found.path], Engine.includeScope, some found.path, found.content⟩

namespace Engine

/-- The file that the build of a document starts with. -/
def outermost (e : Engine) (source : Source) : OpenFile :=
  ⟨(source.path.map e.canonicalPath).toList, Scope.document, source.path, source.content⟩

/-- Builds the tree of a file. -/
def buildFile (e : Engine) (f : OpenFile) : BuildM Block := e.process f.chain f.scope f.path f.text

/-- A tree is that of a file, read and rewritten, with its directives still in it. -/
def HasTree (e : Engine) (f : OpenFile) (root : Block) : Prop :=
  (e.prepare f.scope f.path f.text {}).1 = .ok root

/-- A file includes another one: a directive in its tree leads to it, and it is not open yet. -/
inductive Includes (e : Engine) (f : OpenFile) : OpenFile → Prop
  | directive {root : Block} {d : Directive} {found : Resolved} (hroot : e.HasTree f root)
      (hd : d ∈ root.directives) (hfound : e.resolver.resolve d.path f.path = some found)
      (hclosed : f.chain.holds found.path = false) : Includes e f (f.entering found)

/-- Something that a test finds is carried up to a file: it is in the tree of the file itself, or is
carried up to a file that is included, and moved from there. -/
inductive Carries (e : Engine) {α : Type} (p : Token → Option α)
    (move : Option Path → Option Path → α → α) : OpenFile → α → Prop
  | own {f : OpenFile} {root : Block} {x : α} (hroot : e.HasTree f root) (hx : x ∈ root.collect p) :
      Carries e p move f x
  | included {f g : OpenFile} {x : α} (hg : e.Includes f g) (hx : Carries e p move g x) :
      Carries e p move f (move f.path g.path x)

/-- Everything that is due to be reported in the build of a file: what the rules have to say about
its tree, and about those of all files that are included from there on. -/
def dueReports (e : Engine) (rules : List TagRule) (f : OpenFile) : Set Diagnostic :=
  {d | ∃ g root, Relation.ReflTransGen e.Includes f g ∧ e.HasTree g root ∧
    d ∈ TagRule.reportsOn rules g.path root}

variable {e : Engine} {rules : List TagRule}

/-! ## A file by itself -/

/-- The engine with some rules on HTML tags for its only check. -/
def checking (e : Engine) (rules : List TagRule) : Engine :=
  { e with validators := if rules.isEmpty then [] else [TagRule.validator rules] }

/-- An engine that does what engines do by themselves, and checks HTML tags. -/
structure IsChecking (e : Engine) (rules : List TagRule) : Prop where
  plain : e.IsPlain
  passes : e.passes = []
  validators : e.validators = if rules.isEmpty then [] else [TagRule.validator rules]

lemma ofFlavor_isChecking (e : Engine) (flavor : Flavor) (rules : List TagRule) :
    ((e.ofFlavor flavor).checking rules).IsChecking rules where
  plain :=
    { rules := flavor.rules_isStandard
      text := flavor.rules_hasText
      passes := by simp [ofFlavor, checking] }
  passes := rfl
  validators := rfl

lemma checking_isChecking (e : Engine) (flavor : Flavor) (files : MemoryFiles)
    (rules : List TagRule) :
    (((e.ofFlavor flavor).overFiles files).checking rules).IsChecking rules :=
  ofFlavor_isChecking (e.overFiles files) flavor rules

lemma runPasses_append (ps qs : List Pass) (file : Option Path) (root : Block) :
    runPasses (ps ++ qs) file root = runPasses ps file root >>= runPasses qs file := by
  rw [runPasses, List.foldlM_append]
  rfl

lemma runPasses_singleton (p : Pass) (file : Option Path) (root : Block) :
    runPasses [p] file root = p file root := by
  rw [runPasses, List.foldlM_cons]
  exact bind_pure _

/-- Heading ids are given in silence, and always the same ones. -/
lemma headings_reports (e : Engine) (file : Option Path) (root : Block) :
    ∃ root', Reports
      (runPasses (if e.headingIds then [headingIdRewriter.pass] else []) file root)
      (fun r => r = root') ∅ := by
  split
  · rw [runPasses_singleton]
    obtain ⟨r, hquiet⟩ := headingIdRewriter_isQuiet.pass file root
    obtain ⟨root', hroot, -⟩ := headingIdRewriter_isGentle.pass file root {}
    rw [hquiet] at hroot
    refine ⟨root', fun j => ⟨root', ?_, rfl, fun d hd => ?_⟩⟩
    · rw [hquiet j]
      exact hroot
    · rw [hquiet j]
      exact hd.resolve_right (Set.notMem_empty d)
  · exact ⟨root, Reports.pure rfl⟩

/-- The checks report what the rules have to say, and leave the tree as it is. -/
lemma checks_reports (he : e.IsChecking rules) (file : Option Path) (root : Block) :
    Reports
      (runPasses (if e.validators.isEmpty then [] else [(Validator.group e.validators).pass])
        file root)
      (fun r => r = root) {d | d ∈ TagRule.reportsOn rules file root} := by
  rw [he.validators]
  by_cases hrules : rules.isEmpty = true
  · have hempty : rules = [] := List.isEmpty_iff.1 hrules
    rw [hempty]
    refine (Reports.pure (Q := fun r => r = root) rfl).imp (fun _ h => h) ?_
    simp [TagRule.reportsOn, TagRule.reports]
  · rw [if_neg hrules]
    intro j
    have hpass := Validator.group_pass [TagRule.validator rules] file root j
    have hrun : runPasses [(Validator.group [TagRule.validator rules]).pass] file root j =
        (.ok root, Validator.lookAt [TagRule.validator rules] file root.walk j) := by
      rw [runPasses_singleton, hpass]
    refine ⟨root, congrArg Prod.fst hrun, rfl, fun d hd => ?_⟩
    have hjournal := congrArg (fun r => r.2.diagnostics) hrun
    simp only [TagRule.lookAt_diagnostics] at hjournal
    rw [List.isEmpty_cons, if_neg Bool.false_ne_true, hjournal]
    exact List.mem_append.2 hd

/-- **A file is checked.**  Its tree does not depend on what was recorded before, and everything
that the rules have to say about the tree is reported. -/
lemma prepare_reports (he : e.IsChecking rules) (scope : Scope) (file : Option Path)
    (text : Text) :
    ∃ root, Reports (e.prepare scope file text) (fun r => r = root)
      {d | d ∈ TagRule.reportsOn rules file root} := by
  obtain ⟨source, hsource⟩ := exists_readWith he.plain.rules he.plain.text [] scope text
  obtain ⟨root, hroot⟩ := headings_reports e file source
  have hread : Reports ((read e.rules scope text : Except Fault Block) : BuildM Block)
      (fun r => r = source) ∅ := by
    intro j
    simp only [read, hsource]
    exact ⟨source, rfl, rfl, fun d hd => hd.resolve_right (Set.notMem_empty d)⟩
  have hpasses : Reports (runPasses e.allPasses file source) (fun r => r = root)
      (∅ ∪ {d | d ∈ TagRule.reportsOn rules file root}) := by
    rw [allPasses, he.passes, List.append_nil, runPasses_append]
    refine hroot.bind ?_
    rintro r rfl
    exact checks_reports he file r
  have hall : Reports (e.prepare scope file text) (fun r => r = root)
      (∅ ∪ (∅ ∪ {d | d ∈ TagRule.reportsOn rules file root})) := by
    refine hread.bind ?_
    rintro r rfl
    exact hpasses
  exact ⟨root, hall.imp (fun _ h => h) (by simp)⟩

/-! ## A file with what it includes -/

lemma reportAt_reports (file : Option Path) (span : Span) (kind : DiagnosticKind)
    (message : Text) : Reports (reportAt file span kind message) (fun _ => True) ∅ :=
  fun _ => ⟨(), rfl, trivial, fun _ hd =>
    List.mem_append_left _ (hd.resolve_right (Set.notMem_empty _))⟩

lemma HasTree.unique {f : OpenFile} {root root' : Block} (h : e.HasTree f root)
    (h' : e.HasTree f root') : root = root' := by
  rw [HasTree, h] at h'
  exact Except.ok.inj h'

/-- What is due for a directive of a file: what is due for the file that it leads to. -/
def dueFor (e : Engine) (rules : List TagRule) (f : OpenFile) (d : Directive) : Set Diagnostic :=
  {r | ∃ found, e.resolver.resolve d.path f.path = some found ∧
    f.chain.holds found.path = false ∧ r ∈ e.dueReports rules (f.entering found)}

/-- What is due for a file is due for its own tree or for one of its directives. -/
lemma dueReports_subset {f : OpenFile} {root : Block} (hroot : e.HasTree f root) :
    e.dueReports rules f ⊆
      {d | d ∈ TagRule.reportsOn rules f.path root} ∪ due (e.dueFor rules f) root.directives := by
  rintro d ⟨g, tree, hreach, htree, hd⟩
  rcases hreach.cases_head with rfl | ⟨f', hf', hreach⟩
  · rw [htree.unique hroot] at hd
    exact .inl hd
  · cases hf' with
    | directive hown hmem hfound hclosed =>
      rw [hown.unique hroot] at hmem
      exact .inr ⟨_, hmem, _, hfound, hclosed, g, tree, hreach, htree, hd⟩

section Gather

variable {α : Type} {p : Token → Option α} {move : Option Path → Option Path → α → α}

/-- What a test finds in an included tree is moved when the links of the tree are. -/
def MovesWith (p : Token → Option α) (move : Option Path → Option Path → α → α) : Prop :=
  ∀ file path root, Reports (rebaseIncluded file path root)
    (Block.Holds p fun x => ∃ y ∈ root.collect p, x = move file (some path) y) ∅

lemma loadIn_supplies (hmove : MovesWith p move) {f : OpenFile} {root : Block}
    (hroot : e.HasTree f root)
    (hnext : ∀ found, found.path ∈ e.resolver.known → f.chain.holds found.path = false →
      Reports (e.buildFile (f.entering found)) (Block.Holds p (e.Carries p move (f.entering found)))
        (e.dueReports rules (f.entering found)))
    {d : Directive} (hd : d ∈ root.directives) :
    (e.loadIn f.chain f.path).Supplies p (e.Carries p move f) (e.dueFor rules f) d := by
  intro span
  have hnothing {kind : DiagnosticKind} {message : Text} (hdue : e.dueFor rules f d ⊆ ∅) :
      Reports (do reportAt f.path span kind message; Pure.pure (none : Option (Path × Block)))
        (fun found => ∀ path root, found = some (path, root) → root.Holds p (e.Carries p move f))
        (e.dueFor rules f d) := by
    refine ((reportAt_reports f.path span kind message).bind fun _ _ =>
      Reports.pure fun path root hfound => ?_).imp (fun _ h => h) ?_
    · cases hfound
    · exact fun r hr => .inl (hdue hr)
  simp only [loadIn]
  split
  next hnone =>
    refine hnothing ?_
    rintro r ⟨found, hfound, -⟩
    rw [hnone] at hfound
    cases hfound
  next found hfound =>
    have hknown := e.resolver.resolve_known _ _ _ hfound
    split
    next hopen =>
      refine hnothing ?_
      rintro r ⟨found', hfound', hclosed, -⟩
      rw [hfound] at hfound'
      cases hfound'
      rw [hopen] at hclosed
      cases hclosed
    next hopen =>
      have hclosed : f.chain.holds found.path = false := by simpa using hopen
      refine ((hnext found hknown hclosed).bind fun root₁ hroot₁ =>
        (hmove f.path found.path root₁).bind fun root₂ hroot₂ => Reports.pure ?_).imp
          (fun _ h => h) ?_
      · rintro _ _ ⟨⟩ x hx
        obtain ⟨y, hy, rfl⟩ := hroot₂ x hx
        exact .included (.directive hroot hd hfound hclosed) (hroot₁ y hy)
      · rintro r ⟨found', hfound', -, hr⟩
        rw [hfound] at hfound'
        cases hfound'
        exact .inl hr

/-- What the files that may be entered next do, a file does. -/
lemma buildFile_gathers_step (he : e.IsChecking rules) (hp : Token.IsContentTest p)
    (hmove : MovesWith p move) {f : OpenFile}
    (hnext : ∀ found, found.path ∈ e.resolver.known → f.chain.holds found.path = false →
      Reports (e.buildFile (f.entering found)) (Block.Holds p (e.Carries p move (f.entering found)))
        (e.dueReports rules (f.entering found))) :
    Reports (e.buildFile f) (Block.Holds p (e.Carries p move f)) (e.dueReports rules f) := by
  obtain ⟨root, hprepare⟩ := prepare_reports he f.scope f.path f.text
  have hroot : e.HasTree f root := by
    obtain ⟨r, hr, rfl, -⟩ := hprepare {}
    exact hr
  have hexpand : Reports (expandBlock (e.loadIn f.chain f.path) root)
      (Block.Holds p (e.Carries p move f)) (due (e.dueFor rules f) root.directives) :=
    reports_expandBlock hp root (fun x hx => .own hroot hx)
      fun d hd => loadIn_supplies hmove hroot hnext hd
  have hall : Reports (e.prepare f.scope f.path f.text >>= expandBlock (e.loadIn f.chain f.path))
      (Block.Holds p (e.Carries p move f))
      ({d | d ∈ TagRule.reportsOn rules f.path root} ∪ due (e.dueFor rules f) root.directives) := by
    refine hprepare.bind ?_
    rintro r rfl
    exact hexpand
  rw [buildFile, process_eq]
  exact hall.imp (fun _ h => h) (dueReports_subset hroot)

/-- **What the build of a file holds and reports.**  Everything that is found in the tree was
carried up from the tree of a file that is built on the way, and everything that the rules have to
say about those trees is reported. -/
theorem buildFile_gathers (he : e.IsChecking rules) (hp : Token.IsContentTest p)
    (hmove : MovesWith p move) (f : OpenFile) :
    Reports (e.buildFile f) (Block.Holds p (e.Carries p move f)) (e.dueReports rules f) := by
  -- each file that is entered leaves fewer files to enter
  induction hlength : (e.closedFiles f.chain).length using Nat.strong_induction_on
    generalizing f with
  | _ n ih =>
    refine buildFile_gathers_step he hp hmove fun found hknown hclosed => ?_
    have hlt := e.closedFiles_enter_lt hknown hclosed
    exact ih _ (hlength ▸ hlt) (f.entering found) rfl

end Gather

/-! ## A document -/

/-- **A document is built.**  Its tree holds what its outermost file carries, and everything due is
among its diagnostics. -/
theorem parse_gathers {α : Type} {p : Token → Option α} {move : Option Path → Option Path → α → α}
    (he : e.IsChecking rules) (hp : Token.IsContentTest p) (hmove : MovesWith p move)
    (source : Source) :
    ∃ d, e.parse source = .ok d ∧ d.root.Holds p (e.Carries p move (e.outermost source)) ∧
      ∀ r ∈ e.dueReports rules (e.outermost source), r ∈ d.diagnostics := by
  obtain ⟨root, hroot, hholds, hreports⟩ := buildFile_gathers he hp hmove (e.outermost source) {}
  obtain ⟨⟨r, journal⟩, hrun⟩ : ∃ outcome, e.buildFile (e.outermost source) {} = outcome := ⟨_, rfl⟩
  rw [hrun] at hroot hreports
  cases hroot
  simp only [buildFile, outermost] at hrun
  refine ⟨⟨source.path, root, journal.diagnostics, journal.remarks⟩, ?_, hholds, ?_⟩
  · simp only [parse, hrun]
  · exact fun r hr => hreports r (.inr hr)

end Engine

end Docmark
