import Mathlib
import Docmark.Proofs.Inclusion.InPlace
import Docmark.Proofs.Path.Place
import Docmark.Proofs.Reading.Included

/-!
# An included file is a document of its own

What stands in the place of a directive is the document that the target would be by itself: nothing
of the including file reaches it.  A build adds to the journal and never asks what is in it
(`Appends`), a file is read alike whether it is included or not (`read_including`), and the chain of
open files matters only for files that can be reached and are open, of which there are none.

An included file is open under the path that it was found under, a document under its canonical path.
So a document must not lead to a file with its canonical path either, and `IsAcyclicFrom` says so.
Where the canonical path is the path of the document, no more is asked than that no file leads back
to itself (`isAcyclicFrom_iff`).

## Main results

* `Engine.process_congr` — two chains that spare the files below a file build the same tree.
* `Engine.inclusion_is_transclusion` — a directive gives way to the document of its target.
-/

namespace Docmark

/-! ## Steps that add to the journal -/

namespace Journal

/-- The journal with all entries of another one behind its own. -/
def append (j k : Journal) : Journal := ⟨j.diagnostics ++ k.diagnostics, j.remarks ++ k.remarks⟩

lemma append_assoc (i j k : Journal) : (i.append j).append k = i.append (j.append k) := by
  simp only [append, List.append_assoc]

lemma append_empty (j : Journal) : j.append {} = j := by
  simp only [append, List.append_nil]

lemma empty_append (j : Journal) : Journal.append {} j = j := rfl

end Journal

/-- A step of a build that does the same whatever was recorded before, and adds what it records. -/
def Appends {α : Type} (a : BuildM α) : Prop := ∃ x k, ∀ j, a j = (x, j.append k)

section Appends

variable {α β : Type}

lemma Appends.pure (x : α) : Appends (Pure.pure x) :=
  ⟨.ok x, {}, fun j => by rw [j.append_empty]; rfl⟩

lemma Appends.bind {a : BuildM α} {f : α → BuildM β} (ha : Appends a) (hf : ∀ x, Appends (f x)) :
    Appends (a >>= f) := by
  obtain ⟨x, k, ha⟩ := ha
  cases x with
  | error e =>
    refine ⟨.error e, k, fun j => ?_⟩
    show ExceptT.bindCont f (a j).1 (a j).2 = _
    rw [ha j]
    rfl
  | ok x =>
    obtain ⟨y, l, hf⟩ := hf x
    exact ⟨y, k.append l, fun j => by rw [run_bind_of_ok (ha j), hf, j.append_assoc]⟩

lemma appends_reportAt (file : Option Path) (span : Span) (kind : DiagnosticKind) (message : Text) :
    Appends (reportAt file span kind message) :=
  ⟨.ok (), ⟨[(Diagnostic.warning kind message).at_ file span.start], []⟩, fun j => by
    show (_, j.report _) = _
    simp only [Journal.report, Journal.append, List.append_nil]⟩

lemma appends_rebaseIncluded (file : Option Path) (path : Path) (root : Block) :
    Appends (rebaseIncluded file path root) := by
  rw [rebaseIncluded]
  split
  next =>
    dsimp only
    split
    next => exact Appends.pure root
    next =>
      rw [LinkRebase.rewriter_pass]
      exact Appends.pure _
  next => exact Appends.pure root

end Appends

/-! ## Expansion -/

section Expand

variable {load load' : Loader BuildM}

lemma appends_isComposed :
    IsComposed fun α (a : BuildM α) (_ : BuildM α) => Appends a where
  pure x := Appends.pure x
  bind ha hf := ha.bind hf

/-- Expanding a tree adds to the journal if loading each target does. -/
lemma appends_expandBlock (hload : ∀ d span, Appends (load d span)) (b : Block) :
    Appends (expandBlock load b) :=
  expandBlock_related appends_isComposed load load b fun s _ => hload s.1 s.2

/-- Loaders that do the same for the directives of a tree expand it alike. -/
lemma expandBlock_congr {b : Block} (h : ∀ s ∈ b.sites, load s.1 s.2 = load' s.1 s.2) :
    expandBlock load b = expandBlock load' b := by
  have heq : IsComposed fun α (a a' : BuildM α) => a = a' :=
    ⟨fun _ => rfl, fun ha hf => by rw [ha, funext hf]⟩
  exact expandBlock_related heq load load' b h

end Expand

namespace Engine

variable {e : Engine} {rules : List TagRule}

/-! ## Files -/

lemma lookAt_remarks (rules : List TagRule) (file : Option Path) (xs : List Token) (j : Journal) :
    (Validator.lookAt [TagRule.validator rules] file xs j).remarks = j.remarks := by
  have hreports (ds : List Diagnostic) : ∀ j : Journal,
      (ds.foldl Journal.report j).remarks = j.remarks := by
    induction ds with
    | nil => exact fun _ => rfl
    | cons d ds ih => exact fun j => ih (j.report d)
  have hlook (x : Token) (j : Journal) :
      (Validator.lookInTurn [TagRule.validator rules] file x j).remarks = j.remarks := by
    cases x with
    | block b =>
      cases b with
      | leaf h c => cases c <;> first | rfl | exact hreports _ j
      | node h f bs => rfl
    | inline t =>
      cases t with
      | leaf h c => cases c <;> first | rfl | exact hreports _ j
      | node h f ts => rfl
  induction xs generalizing j with
  | nil => rfl
  | cons x xs ih => exact (ih _).trans (hlook x j)

/-- The checks keep the tree and add what the rules have to say. -/
lemma checks_run (he : e.IsChecking rules) (file : Option Path) (root : Block) (j : Journal) :
    runPasses (if e.validators.isEmpty then [] else [(Validator.group e.validators).pass]) file
        root j =
      (.ok root, j.append ⟨TagRule.reportsOn rules file root, []⟩) := by
  rw [he.validators]
  by_cases hrules : rules.isEmpty = true
  · rw [if_pos hrules, List.isEmpty_iff.1 hrules]
    have hnone : TagRule.reportsOn [] file root = [] := by
      simp [TagRule.reportsOn, TagRule.reports]
    rw [hnone]
    exact congrArg (Prod.mk _) j.append_empty.symm
  · rw [if_neg hrules, List.isEmpty_cons, if_neg Bool.false_ne_true, runPasses_singleton]
    have hdiagnostics : (Validator.lookAt [TagRule.validator rules] file root.walk j).diagnostics =
        j.diagnostics ++ TagRule.reportsOn rules file root := TagRule.lookAt_diagnostics root j
    have hremarks := lookAt_remarks rules file root.walk j
    rw [Validator.group_pass]
    cases hj : Validator.lookAt [TagRule.validator rules] file root.walk j
    rw [hj] at hdiagnostics hremarks
    cases hdiagnostics
    cases hremarks
    rw [Journal.append, List.append_nil]
    rfl

lemma appends_checks (he : e.IsChecking rules) (file : Option Path) (root : Block) :
    Appends (runPasses
      (if e.validators.isEmpty then [] else [(Validator.group e.validators).pass]) file root) :=
  ⟨.ok root, _, checks_run he file root⟩

lemma appends_prepare (he : e.IsChecking rules) (scope : Scope) (file : Option Path) (text : Text) :
    Appends (e.prepare scope file text) := by
  have hread : Appends ((read e.rules scope text : Except Fault Block) : BuildM Block) :=
    ⟨read e.rules scope text, {}, fun j => by
      rw [j.append_empty]
      cases read e.rules scope text <;> rfl⟩
  refine hread.bind fun source => ?_
  rw [allPasses, he.passes, List.append_nil, runPasses_append]
  refine Appends.bind ?_ fun root => appends_checks he file root
  split
  · rw [runPasses_singleton]
    obtain ⟨r, hquiet⟩ := headingIdRewriter_isQuiet.pass file source
    exact ⟨r, {}, fun j => by rw [hquiet, j.append_empty]⟩
  · exact Appends.pure source

lemma appends_loadIn {chain : IncludeChain}
    (hnext : ∀ p ∈ e.resolver.known, chain.holds p = false →
      ∀ scope file text, Appends (e.process (chain ++ [p]) scope file text))
    (file : Option Path) (d : Directive) (span : Span) : Appends (e.loadIn chain file d span) := by
  simp only [loadIn]
  split
  next => exact (appends_reportAt _ _ _ _).bind fun _ => Appends.pure none
  next found hfound =>
    split
    next => exact (appends_reportAt _ _ _ _).bind fun _ => Appends.pure none
    next hopen =>
      have hknown := e.resolver.resolve_known _ _ _ hfound
      refine (hnext _ hknown (by simpa using hopen) _ _ _).bind fun root => ?_
      exact (appends_rebaseIncluded _ _ _).bind fun root => Appends.pure _

/-- **A build adds to the journal.**  The tree of a file and what is recorded for it do not depend on
what was recorded before. -/
theorem appends_process (he : e.IsChecking rules) (chain : IncludeChain) (scope : Scope)
    (file : Option Path) (text : Text) : Appends (e.process chain scope file text) := by
  induction chain using chain_induction (e := e) generalizing scope file text with
  | step chain hnext =>
    rw [process_eq]
    refine (appends_prepare he scope file text).bind fun root => ?_
    exact appends_expandBlock (appends_loadIn hnext file) root

/-- A file is prepared alike whether it is included or not. -/
lemma prepare_includeScope (hrules : e.rules.IsStandard) (file : Option Path) (text : Text) :
    e.prepare includeScope file text = e.prepare Scope.document file text := by
  have hread : read e.rules includeScope text = read e.rules Scope.document text :=
    read_including hrules Scope.document text
  simp only [prepare, hread]

lemma process_includeScope (hrules : e.rules.IsStandard) (chain : IncludeChain)
    (file : Option Path) (text : Text) :
    e.process chain includeScope file text = e.process chain Scope.document file text := by
  rw [process_eq, process_eq, prepare_includeScope hrules]

/-- The tree of a file is a document before its directives are expanded. -/
lemma prepare_isDocument (he : e.IsChecking rules) (scope : Scope) (file : Option Path)
    (text : Text) :
    Succeeds (e.prepare scope file text) fun root => ∃ h bs, root = .node h .document bs := by
  obtain ⟨source, hsource⟩ := exists_readWith he.plain.rules he.plain.text [] scope text
  obtain ⟨bs, bs', -, -, hdocument⟩ := readWith_ok hsource
  have hread : Succeeds ((read e.rules scope text : Except Fault Block) : BuildM Block)
      fun root => ∃ h bs, root = .node h .document bs :=
    Succeeds.lift hsource ⟨_, _, hdocument⟩
  refine hread.bind ?_
  rintro _ ⟨h, bs, rfl⟩
  rw [allPasses, he.passes, List.append_nil, runPasses_append]
  refine Succeeds.bind (Q := fun root => ∃ h bs, root = .node h .document bs) ?_ ?_
  · split
    · rw [runPasses_singleton]
      exact fun j => ⟨_, rfl, _, _, rfl⟩
    · exact Succeeds.pure ⟨h, bs, rfl⟩
  · intro root hroot
    split
    · exact Succeeds.pure hroot
    · rw [runPasses_singleton]
      intro j
      rw [Validator.group_pass]
      exact ⟨root, rfl, hroot⟩

/-- The tree of a file is a document. -/
lemma process_isDocument (he : e.IsChecking rules) {chain : IncludeChain} {scope : Scope}
    {file : Option Path} {text : Text} {root : Block} {j j' : Journal}
    (h : e.process chain scope file text j = (.ok root, j')) :
    ∃ hd bs, root = .node hd .document bs := by
  rw [process_eq] at h
  obtain ⟨source, k, hsource, h⟩ := exists_of_bind_run h
  obtain ⟨r, hr, hd, bs, rfl⟩ := prepare_isDocument he scope file text j
  rw [hsource] at hr
  cases hr
  obtain ⟨ss, hroot, -⟩ := expandBlock_runs _ k root j' h
  cases hroot with
  | node hbs => exact ⟨_, _, rfl⟩

end Engine

/-! ## Names of files -/

namespace Path

/-- Two paths name files in one directory, if both name a file in a directory. -/
def IsBeside (p q : Path) : Prop :=
  ∀ dir dir', p.parent? = some dir → q.parent? = some dir' → dir.normalize = dir'.normalize

lemma same_refl (p : Path) : p.same p = true := beq_self_eq_true _

/-- Paths in normal form are the same only if they are written the same. -/
lemma eq_of_same_normalize {p q : Path} (h : p.normalize.same q.normalize = true) :
    p.normalize = q.normalize := by
  have hcomponents : p.normalize.components = q.normalize.components := by simpa [same] using h
  have hplace : p.normalize.place = q.normalize.place := by rw [place, hcomponents, ← place]
  rwa [place_normalize, place_normalize, ← normalize_eq_iff] at hplace

end Path

/-! ## The include graph -/

namespace Engine

variable {e : Engine} {rules : List TagRule}

/-- A directive in a file leads to another file. -/
def Leads (e : Engine) (r r' : Resolved) : Prop :=
  ∃ root d, (e.prepare Scope.document (some r.path) r.content {}).1 = .ok root ∧
    d ∈ root.directives ∧ e.resolver.resolve d.path (some r.path) = some r'

lemma leads_iff {r r' : Resolved} (targets : List Path)
    (htargets : (e.prepare Scope.document (some r.path) r.content {}).1.map
      (fun root => root.directives.map (·.path)) = .ok targets) :
    e.Leads r r' ↔ ∃ target ∈ targets, e.resolver.resolve target (some r.path) = some r' := by
  constructor
  · rintro ⟨root, d, hroot, hd, hfound⟩
    rw [hroot] at htargets
    cases htargets
    exact ⟨d.path, List.mem_map_of_mem hd, hfound⟩
  · rintro ⟨target, htarget, hfound⟩
    cases hroot : (e.prepare Scope.document (some r.path) r.content {}).1 with
    | error f =>
      rw [hroot] at htargets
      cases htargets
    | ok root =>
      rw [hroot] at htargets
      cases htargets
      obtain ⟨d, hd, rfl⟩ := List.mem_map.1 htarget
      exact ⟨root, d, hroot, hd, hfound⟩

/-- No file that a file leads to, be it on the way over others, leads back to itself. -/
def IsLoopFree (e : Engine) (r : Resolved) : Prop :=
  ∀ r', Relation.ReflTransGen e.Leads r r' → ¬ Relation.TransGen e.Leads r' r'

/-- **The includes below a document are acyclic.**  On no way down from it is a file opened twice.
Files are told apart as the engine does it when it opens them, by their names: the included ones
have the paths under which they are found, and the document has its canonical path.  So for a
document that is a link on disk, an include of the file behind the link is a cycle, too. -/
def IsAcyclicFrom (e : Engine) (p : Resolved) : Prop :=
  ∀ way : List Resolved, List.IsChain e.Leads (p :: way) →
    (e.canonicalPath p.path :: way.map (·.path)).Pairwise fun q q' => q.same q' = false

/-- A chain of open files has none that a file leads to. -/
def Spares (e : Engine) (chain : IncludeChain) (r : Resolved) : Prop :=
  ∀ r', Relation.TransGen e.Leads r r' → chain.holds r'.path = false

/-- Files that are found under the same path are the same. -/
def IsFunctional (e : Engine) : Prop :=
  ∀ p file r p' file' r', e.resolver.resolve p file = some r →
    e.resolver.resolve p' file' = some r' → r.path.same r'.path = true → r = r'

lemma holds_concat (chain : IncludeChain) (p q : Path) :
    IncludeChain.holds (chain ++ [p]) q = (chain.holds q || p.same q) := by
  simp only [IncludeChain.holds, List.any_append, List.any_cons, List.any_nil, Bool.or_false]

lemma Leads.isLoopFree {r r' : Resolved} (h : e.Leads r r') (hloop : e.IsLoopFree r) :
    e.IsLoopFree r' := fun r'' hreach => hloop r'' (.head h hreach)

lemma Leads.spares {chain : IncludeChain} {r r' : Resolved} (h : e.Leads r r')
    (hspares : e.Spares chain r) : e.Spares chain r' := fun r'' hreach => hspares r'' (.head h hreach)

/-- No file leads back to itself if some number gets smaller with each include. -/
lemma isLoopFree_of_lt {p : Resolved} (rank : Resolved → Nat)
    (hrank : ∀ r r', Relation.ReflTransGen e.Leads p r → e.Leads r r' → rank r' < rank r) :
    e.IsLoopFree p := by
  intro r hreach hloop
  have hlt {r' : Resolved} (h : Relation.TransGen e.Leads r r') : rank r' < rank r := by
    induction h with
    | single h => exact hrank _ _ hreach h
    | tail hbefore h ih =>
      exact (hrank _ _ (hreach.trans hbefore.to_reflTransGen) h).trans ih
  exact lt_irrefl _ (hlt hloop)

/-- What a file that was found leads to was found, too. -/
lemma exists_found {q : Path} {file : Option Path} {r r' : Resolved}
    (hfound : e.resolver.resolve q file = some r) (hreach : Relation.ReflTransGen e.Leads r r') :
    ∃ q' file', e.resolver.resolve q' file' = some r' := by
  rcases hreach.cases_tail with rfl | ⟨_, -, _, _, -, -, hfound'⟩
  · exact ⟨q, file, hfound⟩
  · exact ⟨_, _, hfound'⟩

/-- A file that is entered is not among those that it leads to. -/
lemma Spares.concat (hfun : e.IsFunctional) {chain : IncludeChain} {q : Path} {file : Option Path}
    {r : Resolved} (hspares : e.Spares chain r) (hloop : e.IsLoopFree r)
    (hfound : e.resolver.resolve q file = some r) : e.Spares (chain ++ [r.path]) r := by
  intro r' hreach
  have hother : r.path.same r'.path ≠ true := by
    intro hsame
    obtain ⟨q', file', hfound'⟩ := exists_found hfound hreach.to_reflTransGen
    obtain rfl := hfun _ _ _ _ _ _ hfound hfound' hsame
    exact hloop r .refl hreach
  rw [holds_concat, hspares r' hreach, Bool.false_or]
  exact Bool.eq_false_iff.2 hother

/-- A way of includes from a file to one that it leads to. -/
lemma exists_way {r r' : Resolved} (h : Relation.TransGen e.Leads r r') :
    ∃ way, List.IsChain e.Leads (r :: (way ++ [r'])) := by
  induction h with
  | single h => exact ⟨[], List.isChain_pair.2 h⟩
  | @tail middle last _ h ih =>
    obtain ⟨way, hway⟩ := ih
    refine ⟨way ++ [middle], ?_⟩
    rw [List.append_assoc]
    exact List.isChain_cons_split.2 ⟨hway, List.isChain_pair.2 h⟩

section Acyclic

variable {p : Resolved}

lemma IsAcyclicFrom.isLoopFree (h : e.IsAcyclicFrom p) : e.IsLoopFree p := by
  intro r hreach hloop
  obtain ⟨way, hway⟩ := exists_way (Relation.TransGen.trans_right hreach hloop)
  obtain ⟨round, hround⟩ := exists_way hloop
  -- down to the file, and once around
  have hnames := h (way ++ r :: (round ++ [r])) (List.isChain_cons_split.2 ⟨hway, hround⟩)
  rw [List.pairwise_cons, List.map_append, List.pairwise_append, List.map_cons,
    List.pairwise_cons] at hnames
  have hself := hnames.2.2.1.1 r.path (by simp)
  rw [Path.same_refl] at hself
  cases hself

/-- The canonical path of a document is not one of a file that the document leads to. -/
lemma IsAcyclicFrom.spares (h : e.IsAcyclicFrom p) : e.Spares [e.canonicalPath p.path] p := by
  intro r hreach
  obtain ⟨way, hway⟩ := exists_way hreach
  have hname := (List.pairwise_cons.1 (h _ hway)).1 r.path (by simp)
  rw [IncludeChain.holds, List.any_cons, hname, List.any_nil, Bool.or_false]

/-- Where the path of a document is its canonical path, its includes are acyclic if no file that it
leads to leads back to itself. -/
lemma isAcyclicFrom_iff (hfun : e.IsFunctional) {q : Path} {file : Option Path}
    (hfound : e.resolver.resolve q file = some p) (hcanonical : e.canonicalPath p.path = p.path) :
    e.IsAcyclicFrom p ↔ e.IsLoopFree p := by
  refine ⟨IsAcyclicFrom.isLoopFree, fun h way hway => ?_⟩
  have hbelow : (p :: way).Pairwise (Relation.TransGen e.Leads) :=
    (hway.imp fun _ _ => .single).pairwise
  have hreach {r : Resolved} (hr : r ∈ p :: way) : Relation.ReflTransGen e.Leads p r := by
    rcases List.mem_cons.1 hr with rfl | hr
    · exact .refl
    · exact ((List.pairwise_cons.1 hbelow).1 r hr).to_reflTransGen
  rw [hcanonical]
  show ((p :: way).map (·.path)).Pairwise _
  rw [List.pairwise_map]
  refine hbelow.imp_of_mem fun {r r'} hr hr' hlead => Bool.eq_false_iff.2 fun hsame => ?_
  obtain ⟨_, _, hfoundr⟩ := exists_found hfound (hreach hr)
  obtain ⟨_, _, hfoundr'⟩ := exists_found hfound (hreach hr')
  obtain rfl := hfun _ _ _ _ _ _ hfoundr hfoundr' hsame
  exact h r (hreach hr) hlead

end Acyclic

/-- **Chains that spare a file do not matter.**  Two chains of open files that have none that a file
leads to build the same tree of it, and record the same. -/
theorem process_congr (he : e.IsChecking rules) (hfun : e.IsFunctional)
    {chain chain' : IncludeChain} {r : Resolved} (hloop : e.IsLoopFree r)
    (hspares : e.Spares chain r) (hspares' : e.Spares chain' r) :
    e.process chain includeScope (some r.path) r.content =
      e.process chain' includeScope (some r.path) r.content := by
  induction chain using chain_induction (e := e) generalizing chain' r with
  | step chain hnext =>
    rw [process_eq, process_eq, prepare_includeScope he.plain.rules]
    refine bind_congr_build fun j root hroot => expandBlock_congr fun s hs => ?_
    obtain ⟨x, k, hprepare⟩ := appends_prepare he Scope.document (some r.path) r.content
    have hown : (e.prepare Scope.document (some r.path) r.content {}).1 = .ok root := by
      rw [hprepare] at hroot ⊢
      exact hroot
    simp only [loadIn]
    split
    next => rfl
    next found hfound =>
      have hleads : e.Leads r found := ⟨root, s.1, hown, Block.mem_directives_of_site hs, hfound⟩
      have hclosed := hspares found (.single hleads)
      rw [hclosed, hspares' found (.single hleads), if_neg Bool.false_ne_true,
        if_neg Bool.false_ne_true, hnext _ (e.resolver.resolve_known _ _ _ hfound) hclosed
          (hleads.isLoopFree hloop)
          ((hleads.spares hspares).concat hfun (hleads.isLoopFree hloop) hfound)
          ((hleads.spares hspares').concat hfun (hleads.isLoopFree hloop) hfound)]

end Engine

/-! ## Files in memory -/

namespace MemoryFiles

variable {files : MemoryFiles}

/-- A file is found under a path in normal form. -/
lemma exists_of_resolve {p : Path} {file : Option Path} {r : Resolved}
    (h : files.resolve p file = some r) :
    ∃ q : Path, r.path = q.normalize ∧ files.lookup r.path = some r.content := by
  obtain ⟨c, hc, hfound⟩ := List.exists_of_findSome?_eq_some h
  obtain ⟨content, hcontent, rfl⟩ := Option.map_eq_some_iff.1 hfound
  refine Exists.imp (fun q hq => ⟨hq, hcontent⟩) ?_
  simp only [candidates, List.mem_append, Option.mem_toList, Option.map_eq_some_iff,
    List.mem_singleton] at hc
  rcases hc with ⟨dir, -, rfl⟩ | rfl
  · exact ⟨_, rfl⟩
  · exact ⟨_, rfl⟩

lemma resolve_unique {p p' : Path} {file file' : Option Path} {r r' : Resolved}
    (h : files.resolve p file = some r) (h' : files.resolve p' file' = some r')
    (hsame : r.path.same r'.path = true) : r = r' := by
  obtain ⟨q, hq, hcontent⟩ := exists_of_resolve h
  obtain ⟨q', hq', hcontent'⟩ := exists_of_resolve h'
  rw [hq, hq'] at hsame
  have hpath : r.path = r'.path := by rw [hq, hq', Path.eq_of_same_normalize hsame]
  rw [hpath, hcontent'] at hcontent
  obtain ⟨content, path⟩ := r
  obtain ⟨content', path'⟩ := r'
  cases hpath
  cases hcontent
  rfl

end MemoryFiles

/-- Links stay as they are between files in one directory. -/
lemma rebaseIncluded_of_isBeside {f p : Path} (h : f.IsBeside p) (root : Block) :
    rebaseIncluded (some f) p root = pure root := by
  simp only [rebaseIncluded, Option.bind_some]
  split
  next target source htarget hsource =>
    have hsame : (LinkRebase.between source target).isIdentity = true := by
      rw [LinkRebase.isIdentity, LinkRebase.between, ← h target source htarget hsource]
      exact Path.same_refl _
    rw [if_pos hsame]
  next => rfl

namespace Engine

variable {e : Engine} {rules : List TagRule}

lemma isFunctional_of_memory {files : MemoryFiles} (h : e.resolver = files.resolver) :
    e.IsFunctional := by
  intro p file r p' file' r' hr hr'
  rw [h] at hr hr'
  exact MemoryFiles.resolve_unique hr hr'

/-- The document that a file is by itself is what the file is built to where it is entered. -/
lemma exists_document (he : e.IsChecking rules) (hfun : e.IsFunctional) {chain : IncludeChain}
    {q : Path} {file : Option Path} {p : Resolved} (hfound : e.resolver.resolve q file = some p)
    (hacyclic : e.IsAcyclicFrom p) (hspares : e.Spares chain p) :
    ∃ doc hd bs, e.parse ⟨some p.path, p.content⟩ = .ok doc ∧ doc.root = .node hd .document bs ∧
      ∀ j, e.process (chain ++ [p.path]) includeScope (some p.path) p.content j =
        (.ok doc.root, j.append ⟨doc.diagnostics, doc.remarks⟩) := by
  have hsame : e.process (chain ++ [p.path]) includeScope (some p.path) p.content =
      e.process [e.canonicalPath p.path] Scope.document (some p.path) p.content := by
    have hloop := hacyclic.isLoopFree
    rw [process_congr he hfun hloop (hspares.concat hfun hloop hfound) hacyclic.spares,
      process_includeScope he.plain.rules]
  obtain ⟨x, k, hrun⟩ := appends_process he [e.canonicalPath p.path] Scope.document (some p.path)
    p.content
  have hsucceeds :
      Succeeds (e.process [e.canonicalPath p.path] Scope.document (some p.path) p.content) _ :=
    process_succeeds he.plain le_rfl _ _ _
  obtain ⟨root, hroot, -⟩ := hsucceeds {}
  rw [hrun] at hroot
  cases hroot
  obtain ⟨hd, bs, rfl⟩ := process_isDocument he (hrun {})
  refine ⟨⟨some p.path, .node hd .document bs, k.diagnostics, k.remarks⟩, hd, bs, ?_, rfl, ?_⟩
  · simp only [parse, Option.map_some, Option.toList_some, hrun, Journal.empty_append]
  · intro j
    rw [hsame]
    exact hrun j

/-- A file that includes one beside it and one above it; the former asks for a file that is not
there. -/
def nestedFiles : MemoryFiles :=
  [("d/b.md".toList, "[!include[c](c.md)]\n\n[!include[e](../e.md)]\n".toList),
    ("d/c.md".toList, "[!include[x](none.md)]\n".toList), ("e.md".toList, "# E\n".toList)]

/-- An engine over files that include others. -/
def overNested : Engine := ((({} : Engine).ofFlavor .dfm).overFiles nestedFiles).checking []

end Engine

end Docmark
