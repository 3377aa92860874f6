import Mathlib
import Docmark.Engine
import Docmark.Proofs.Inclusion.Sites

/-!
# Runs with one chain

`Engine.process` hands the chain of open files down by value, so that nothing can be left on it.
Here the same build is run with a single chain that all files of the run share: a file is pushed
before it is built and popped behind that, whether its build succeeded or failed, and every chain
that was ever held is kept for inspection.  No measure is built into such a run; it is cut off when
more than `fuel` files are open inside each other, and then yields nothing.

## Main results

* `Engine.run_tracks` — a run with more fuel than there are closed files ends, yields what
  `Engine.process` yields, leaves the chain as it was, and never holds a chain with a file in it
  twice.
-/

namespace Docmark

/-! ## Chains without repetition -/

/-- No two files of a chain are the same. -/
def IncludeChain.IsDistinct (chain : IncludeChain) : Prop :=
  chain.Pairwise fun p q => p.same q = false

lemma IncludeChain.IsDistinct.concat {chain : IncludeChain} {p : Path} (h : chain.IsDistinct)
    (hp : chain.holds p = false) : IncludeChain.IsDistinct (chain ++ [p]) := by
  refine List.pairwise_append.2 ⟨h, List.pairwise_singleton _ _, ?_⟩
  intro q hq r hr
  rw [List.mem_singleton.1 hr]
  simpa using List.any_eq_false.1 hp q hq

/-! ## Runs -/

/-- The state of a run. -/
structure RunState where
  journal : Journal
  /-- The files that are open, outermost first. -/
  chain : IncludeChain
  /-- Every chain that was held, the latest first. -/
  held : List IncludeChain

/-- A step of a run: it may fail, and it may be cut off. -/
abbrev RunM := ExceptT Fault (StateT RunState Option)

namespace RunM

variable {α : Type}

/-- A step of a build as a step of a run. -/
def ofBuild (a : BuildM α) : RunM α := fun s =>
  some ((a s.journal).1, { s with journal := (a s.journal).2 })

/-- Where a run is cut off. -/
def cutOff : RunM α := fun _ => none

/-- Makes a step while one more file is open, and closes it however the step ends. -/
def withOpen (p : Path) (a : RunM α) : RunM α := fun s =>
  match a ⟨s.journal, s.chain ++ [p], (s.chain ++ [p]) :: s.held⟩ with
  | none => none
  | some (r, s) => some (r, ⟨s.journal, s.chain.dropLast, s.chain.dropLast :: s.held⟩)

/-- The chain of open files. -/
def openFiles : RunM IncludeChain := fun s => some (.ok s.chain, s)

end RunM

namespace Engine

/-- Finds, checks and builds the target of a directive in `file`, given what builds a file. -/
def runLoad (e : Engine) (build : Scope → Option Path → Text → RunM Block) (file : Option Path) :
    Loader RunM := fun d span =>
  match e.resolver.resolve d.path file with
  | none => do
    .ofBuild (reportAt file span .includeNotFound
      ("cannot resolve include \x60".toList ++ d.path ++ ['\x60']))
    return none
  | some found => do
    let chain ← RunM.openFiles
    if chain.holds found.path then do
      .ofBuild (reportAt file span .circularReference (chain.cycleMessage found.path))
      return none
    else do
      let root ← RunM.withOpen found.path (build includeScope (some found.path) found.content)
      let root ← .ofBuild (rebaseIncluded file found.path root)
      return some (found.path, root)

/-- Builds the tree of a file, at most `fuel` files deep. -/
def run (e : Engine) : Nat → Scope → Option Path → Text → RunM Block
  | 0, _, _, _ => .cutOff
  | fuel + 1, scope, file, text => do
    let root ← .ofBuild (e.prepare scope file text)
    expandBlock (e.runLoad (e.run fuel) file) root

/-- Expands the directives in a tree of `file`, at most `fuel` files deep. -/
def runExpand (e : Engine) (fuel : Nat) (file : Option Path) (root : Block) : RunM Block :=
  expandBlock (e.runLoad (e.run fuel) file) root

/-- Builds a document, at most `fuel` files deep. -/
def runParse (e : Engine) (fuel : Nat) (source : Source) :
    Option (Except Fault Document × RunState) :=
  let chain := (source.path.map e.canonicalPath).toList
  match e.run fuel Scope.document source.path source.content ⟨{}, chain, [chain]⟩ with
  | none => none
  | some (.ok root, s) =>
    some (.ok ⟨source.path, root, s.journal.diagnostics, s.journal.remarks⟩, s)
  | some (.error f, s) => some (.error f, s)

end Engine

/-! ## Runs that track a build -/

/-- A step of a run does what a step of a build does: it is not cut off, yields the same, and leaves
the chain as it was; and the chains that it holds in between are without repetition if the one that
it starts with is. -/
def Tracks {α : Type} (chain : IncludeChain) (a : RunM α) (b : BuildM α) : Prop :=
  ∀ s : RunState, s.chain = chain → ∃ held,
    a s = some ((b s.journal).1, ⟨(b s.journal).2, chain, held ++ s.held⟩) ∧
      (chain.IsDistinct → ∀ c ∈ held, c.IsDistinct)

section Tracks

variable {α β : Type} {chain : IncludeChain}

lemma Tracks.ofBuild (b : BuildM α) : Tracks chain (.ofBuild b) b := by
  rintro s rfl
  exact ⟨[], rfl, by simp⟩

lemma Tracks.pure (x : α) : Tracks chain (Pure.pure x) (Pure.pure x) := by
  rintro s rfl
  exact ⟨[], rfl, by simp⟩

lemma Tracks.bind {a : RunM α} {b : BuildM α} {f : α → RunM β} {g : α → BuildM β}
    (ha : Tracks chain a b) (hf : ∀ x, Tracks chain (f x) (g x)) :
    Tracks chain (a >>= f) (b >>= g) := by
  rintro s hs
  obtain ⟨held, ha, hheld⟩ := ha s hs
  have hrun : (a >>= f) s =
      ExceptT.bindCont f (b s.journal).1 ⟨(b s.journal).2, chain, held ++ s.held⟩ := by
    show (a s).bind (fun r => ExceptT.bindCont f r.1 r.2) = _
    rw [ha]
    rfl
  have hbuild : (b >>= g) s.journal = ExceptT.bindCont g (b s.journal).1 (b s.journal).2 := rfl
  rw [hrun, hbuild]
  cases (b s.journal).1 with
  | error e => exact ⟨held, rfl, hheld⟩
  | ok x =>
    obtain ⟨held', hf, hheld'⟩ := hf x ⟨(b s.journal).2, chain, held ++ s.held⟩ rfl
    refine ⟨held' ++ held, ?_, ?_⟩
    · rw [List.append_assoc]
      exact hf
    · intro hchain c hc
      rcases List.mem_append.1 hc with hc | hc
      · exact hheld' hchain c hc
      · exact hheld hchain c hc

lemma Tracks.openFiles_bind {f : IncludeChain → RunM α} {b : BuildM α}
    (h : Tracks chain (f chain) b) : Tracks chain (RunM.openFiles >>= f) b := by
  rintro s rfl
  exact h s rfl

/-- A file that is opened for a step is closed behind it, whether the step succeeds or fails. -/
lemma Tracks.withOpen {p : Path} {a : RunM α} {b : BuildM α} (hp : chain.holds p = false)
    (h : Tracks (chain ++ [p]) a b) : Tracks chain (.withOpen p a) b := by
  rintro s rfl
  obtain ⟨held, ha, hheld⟩ := h ⟨s.journal, s.chain ++ [p], (s.chain ++ [p]) :: s.held⟩ rfl
  refine ⟨s.chain :: (held ++ [s.chain ++ [p]]), ?_, ?_⟩
  · simp only [RunM.withOpen, ha, List.dropLast_concat, List.cons_append, List.append_assoc,
      List.nil_append]
  · intro hchain c hc
    have hopen := hchain.concat hp
    simp only [List.mem_cons, List.mem_append, List.not_mem_nil, or_false] at hc
    rcases hc with rfl | hc | rfl
    · exact hchain
    · exact hheld hopen c hc
    · exact hopen

end Tracks

/-! ## Expansion -/

section Expand

variable {chain : IncludeChain} {load : Loader RunM} {load' : Loader BuildM}

/-- Expanding a tree tracks if loading each target does. -/
lemma tracks_expandBlock (hload : ∀ d span, Tracks chain (load d span) (load' d span)) (b : Block) :
    Tracks chain (expandBlock load b) (expandBlock load' b) := by
  have hcomposed : IsComposed fun α (a : RunM α) (a' : BuildM α) => Tracks chain a a' :=
    ⟨Tracks.pure, Tracks.bind⟩
  exact expandBlock_related hcomposed load load' b fun s _ => hload s.1 s.2

end Expand

/-! ## Files -/

namespace Engine

variable (e : Engine)

/-- The loader that a build of `file` expands directives with, its chain of open files being
`chain`. -/
def loadIn (chain : IncludeChain) (file : Option Path) : Loader BuildM := fun d span =>
  match e.resolver.resolve d.path file with
  | none => do
    reportAt file span .includeNotFound
      ("cannot resolve include \x60".toList ++ d.path ++ ['\x60'])
    return none
  | some found =>
    if chain.holds found.path then do
      reportAt file span .circularReference (chain.cycleMessage found.path)
      return none
    else do
      let root ← e.process (chain ++ [found.path]) includeScope (some found.path) found.content
      let root ← rebaseIncluded file found.path root
      return some (found.path, root)

lemma process_eq (chain : IncludeChain) (scope : Scope) (file : Option Path) (text : Text) :
    e.process chain scope file text =
      e.prepare scope file text >>= expandBlock (e.loadIn chain file) := by
  rw [process]
  congr 1
  funext root
  congr 1
  funext d span
  simp only [loadIn]
  split
  next hnone => simp only [hnone]
  next found hfound =>
    simp only [hfound]
    split <;> rfl

variable {e}

/-- What passes to a chain from the chains that are longer by one file that may be entered, every
chain has: each such file leaves fewer to enter. -/
lemma chain_induction {P : IncludeChain → Prop}
    (step : ∀ chain : IncludeChain,
      (∀ p ∈ e.resolver.known, chain.holds p = false → P (chain ++ [p])) → P chain)
    (chain : IncludeChain) : P chain := by
  induction hn : (e.closedFiles chain).length using Nat.strong_induction_on generalizing chain with
  | _ n ih =>
    subst hn
    exact step chain fun p hknown hp => ih _ (e.closedFiles_enter_lt hknown hp) _ rfl

lemma tracks_runLoad {fuel : Nat} {chain : IncludeChain} {file : Option Path}
    (hrun : ∀ p ∈ e.resolver.known, chain.holds p = false → ∀ scope file text,
      Tracks (chain ++ [p]) (e.run fuel scope file text) (e.process (chain ++ [p]) scope file text))
    (d : Directive) (span : Span) :
    Tracks chain (e.runLoad (e.run fuel) file d span) (e.loadIn chain file d span) := by
  simp only [runLoad, loadIn]
  split
  next => exact Tracks.bind (Tracks.ofBuild _) fun _ => Tracks.pure none
  next found hfound =>
    have hknown := e.resolver.resolve_known _ _ _ hfound
    refine Tracks.openFiles_bind ?_
    by_cases hopen : chain.holds found.path = true
    · rw [if_pos hopen, if_pos hopen]
      exact Tracks.bind (Tracks.ofBuild _) fun _ => Tracks.pure none
    · rw [if_neg hopen, if_neg hopen]
      have hclosed : chain.holds found.path = false := by simpa using hopen
      refine Tracks.bind (Tracks.withOpen hclosed (hrun _ hknown hclosed _ _ _)) fun root => ?_
      exact Tracks.bind (Tracks.ofBuild _) fun root => Tracks.pure _

/-- **Runs with one chain.**  A run with more fuel than there are closed files does what the build
does that hands its chain down by value. -/
theorem run_tracks {fuel : Nat} {chain : IncludeChain}
    (h : (e.closedFiles chain).length < fuel) (scope : Scope) (file : Option Path) (text : Text) :
    Tracks chain (e.run fuel scope file text) (e.process chain scope file text) := by
  induction fuel generalizing chain scope file text with
  | zero => omega
  | succ fuel ih =>
    rw [process_eq]
    refine Tracks.bind (Tracks.ofBuild _) fun root => ?_
    refine tracks_expandBlock (tracks_runLoad ?_) root
    intro p hknown hp scope file text
    have hlt := e.closedFiles_enter_lt hknown hp
    exact ih (by omega) scope file text

lemma tracks_runExpand {fuel : Nat} {chain : IncludeChain}
    (h : (e.closedFiles chain).length ≤ fuel) (file : Option Path) (root : Block) :
    Tracks chain (e.runExpand fuel file root) (expandBlock (e.loadIn chain file) root) := by
  refine tracks_expandBlock (tracks_runLoad ?_) root
  intro p hknown hp scope file text
  have hlt := e.closedFiles_enter_lt hknown hp
  exact run_tracks (by omega) scope file text

lemma isDistinct_toList (p : Option Path) : IncludeChain.IsDistinct p.toList := by
  cases p with
  | none => exact List.Pairwise.nil
  | some p => exact List.pairwise_singleton _ p

/-- A run of a document yields the document that is built, and never repeats a file on its chain. -/
theorem runParse_eq {fuel : Nat} {source : Source}
    (h : (e.closedFiles (source.path.map e.canonicalPath).toList).length < fuel) :
    ∃ journal held, e.runParse fuel source =
        some (e.parse source, ⟨journal, (source.path.map e.canonicalPath).toList, held⟩) ∧
      ∀ c ∈ held, c.IsDistinct := by
  set chain : IncludeChain := (source.path.map e.canonicalPath).toList with hchain
  have hdistinct : chain.IsDistinct := isDistinct_toList _
  obtain ⟨held, hrun, hheld⟩ :=
    run_tracks h Scope.document source.path source.content ⟨{}, chain, [chain]⟩ rfl
  refine ⟨(e.process chain Scope.document source.path source.content {}).2, held ++ [chain], ?_, ?_⟩
  · simp only [runParse, parse, ← hchain, hrun]
    obtain ⟨r, journal⟩ := e.process chain Scope.document source.path source.content {}
    cases r <;> rfl
  · intro c hc
    rcases List.mem_append.1 hc with hc | hc
    · exact hheld hdistinct c hc
    · rw [List.mem_singleton.1 hc]
      exact hdistinct

end Engine

end Docmark
