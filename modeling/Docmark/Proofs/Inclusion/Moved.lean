import Mathlib
import Docmark.Proofs.Inclusion.Transclusion
import Docmark.Proofs.Rewrite.Landing
import Docmark.Proofs.Rewrite.Targets

/-!
# Moved links

An included tree has its links moved to the directory of the including file, and this is the only
thing that the path of the including file is needed for once its directives are found.  So the tree
of a file is one that is built without moving links in the end, with the targets in its included
content moved afterwards.

## Main results

* `expandBlock_moved` — moving the targets of what is loaded is moving them in the expanded tree.
* `Engine.process_eq_moved` — the tree of a file, with the links of its included content moved.
* `Engine.finds_of_mem_targetsAt` — the included files in a tree are those that are found.
* `Engine.processUnmoved_alike` — the path of a file does not matter before links are moved.
-/

namespace Docmark

/-! ## Moving targets in what is included -/

section Included

variable (f : Text → Text)

lemma Inline.span_mapTargets (t : Inline) : (t.mapTargets f).span = t.span := by
  cases t <;> simp [Inline.span, Inline.head]

lemma Inline.isEmpty_mapTargetsAll (ts : List Inline) :
    (Inline.mapTargetsAll f ts).isEmpty = ts.isEmpty := by
  rw [Inline.mapTargetsAll_eq_map, List.isEmpty_map]

lemma Block.textInlinesAll_eq_flatMap (bs : List Block) :
    Block.textInlinesAll bs = bs.flatMap Block.textInlines := by
  induction bs with
  | nil => rw [Block.textInlinesAll, List.flatMap_nil]
  | cons b bs ih => rw [Block.textInlinesAll, ih, List.flatMap_cons]

lemma Block.textInlines_mapTargets (b : Block) :
    (b.mapTargets f).textInlines = b.textInlines.map (Inline.mapTargetsAll f) := by
  induction b using Block.induction with
  | leaf h c =>
    rw [Block.mapTargets_leaf]
    cases c with
    | heading | paragraph | text =>
      simp only [Block.Leaf.mapInlines, Block.textInlines, Inline.isEmpty_mapTargetsAll]
      split <;> rfl
    | _ => rfl
  | node h fr bs ih =>
    rw [Block.mapTargets_node, Block.textInlines, Block.textInlines,
      Block.textInlinesAll_eq_flatMap, Block.textInlinesAll_eq_flatMap, Block.mapTargetsAll_eq_map,
      List.flatMap_map, List.map_flatMap]
    exact List.flatMap_congr ih

lemma mapTargetsAll_spaced (rows : List (List Inline)) :
    Inline.mapTargetsAll f (spaced rows) = spaced (rows.map (Inline.mapTargetsAll f)) := by
  fun_induction spaced rows with
  | case1 => rfl
  | case2 rest ih => exact ih
  | case3 t ts rest ih =>
    simp only [Inline.mapTargetsAll_eq_map] at ih
    simp only [Inline.mapTargetsAll_eq_map, List.map_cons, List.map_append, ih, spaced,
      Inline.span_mapTargets]
    rfl

lemma includedInlines_mapTargets (root : Block) :
    includedInlines (root.mapTargets f) = Inline.mapTargetsAll f (includedInlines root) := by
  rw [includedInlines, includedInlines, Block.textInlines_mapTargets]
  cases root.textInlines with
  | nil => rfl
  | cons first rest =>
    rw [List.map_cons, Inline.mapTargetsAll_eq_map f (first ++ _), List.map_append,
      ← Inline.mapTargetsAll_eq_map, ← Inline.mapTargetsAll_eq_map, mapTargetsAll_spaced]

lemma includedBlocks_mapTargets (root : Block) :
    includedBlocks (root.mapTargets f) = Block.mapTargetsAll f (includedBlocks root) := by
  cases root with
  | leaf h c => simp [includedBlocks, Block.mapTargetsAll_eq_map]
  | node h fr bs => cases fr <;> simp [includedBlocks, Block.mapTargetsAll_eq_map]

end Included

/-! ## Moving targets in what is loaded -/

/-- A map over targets by the file that they come from, which leaves those alone that come from
none. -/
def inFiles (g : Path → Text → Text) : Option Path → Text → Text
  | none, target => target
  | some path, target => g path target

section Expand

variable {m : Type → Type} [Monad m] [LawfulMonad m] (load : Loader m) (g : Path → Text → Text)

/-- The loader that moves the targets in what it loads, each tree by its file. -/
def Loader.moved : Loader m := fun d span =>
  Option.map (fun found => (found.1, found.2.mapTargets (g found.1))) <$> load d span

lemma Inline.Leaf.mapTargets_inFiles_none (c : Inline.Leaf) :
    c.mapTargets (inFiles g none) = c := by
  cases c <;> rfl

lemma Inline.Frame.mapTargets_inFiles_none (fr : Inline.Frame) :
    fr.mapTargets (inFiles g none) = fr := by
  cases fr <;> rfl

lemma mapM_map_comm {α β : Type} {f f' : α → m β} {h : β → β} {as : List α}
    (hf : ∀ a ∈ as, f' a = h <$> f a) : as.mapM f' = List.map h <$> as.mapM f := by
  induction as with
  | nil => simp
  | cons a as ih =>
    rw [List.mapM_cons, List.mapM_cons, hf a List.mem_cons_self,
      ih fun a' ha' => hf a' (List.mem_cons_of_mem _ ha')]
    simp

lemma expandInline_moved {t : Inline} (ht : t.height .inclusions = 0) :
    expandInline (load.moved g) t =
      Inline.mapTargetsAt (inFiles g) none <$> expandInline load t := by
  induction t using Inline.induction with
  | leaf h c =>
    cases c with
    | directive d =>
      rw [expandInline, expandInline, Loader.moved, map_eq_pure_bind, map_bind, bind_assoc]
      refine bind_congr fun found => ?_
      rw [pure_bind]
      cases found with
      | none => rw [map_pure]; rfl
      | some found =>
        dsimp only [Option.map_some]
        rw [map_pure, includedInlines_mapTargets, Inline.mapTargetsAt, Inline.Frame.enter,
          Inline.mapTargetsAtAll_some]
        rfl
    | _ =>
      simp only [expandInline, map_pure, Inline.mapTargetsAt, Inline.Leaf.mapTargets_inFiles_none]
  | node h fr ts ih =>
    rw [Inline.height_node, Nat.add_eq_zero_iff] at ht
    have hts : ∀ t ∈ ts, t.height .inclusions = 0 := fun t hmem =>
      Nat.le_zero.1 (Inline.heightAll_le.1 ht.2.le t hmem)
    have henter : fr.enter none = none := by
      cases fr <;> first | rfl | simp [Inline.Frame.kind, Weight.inclusions] at ht
    rw [expandInline, expandInline, expandInlines_eq_mapM, expandInlines_eq_mapM,
      mapM_map_comm fun t hmem => ih t hmem (hts t hmem)]
    simp [Inline.mapTargetsAt, henter, Inline.mapTargetsAtAll_eq_map,
      Inline.Frame.mapTargets_inFiles_none]

lemma expandInlines_moved {ts : List Inline} (hts : ∀ t ∈ ts, t.height .inclusions = 0) :
    expandInlines (load.moved g) ts =
      Inline.mapTargetsAtAll (inFiles g) none <$> expandInlines load ts := by
  rw [expandInlines_eq_mapM, expandInlines_eq_mapM,
    mapM_map_comm fun t hmem => expandInline_moved load g (hts t hmem)]
  exact congrArg (· <$> _) (funext fun ts => (Inline.mapTargetsAtAll_eq_map _ _ ts).symm)

lemma expandLeaf_moved {c : Block.Leaf}
    (hc : ∀ ts ∈ c.inlines, ∀ t ∈ ts, t.height .inclusions = 0) :
    expandLeaf (load.moved g) c =
      (fun c => c.mapInlines (Inline.mapTargetsAtAll (inFiles g) none)) <$> expandLeaf load c := by
  cases c with
  | heading | paragraph | text =>
    rw [expandLeaf, expandLeaf, expandInlines_moved load g (hc _ List.mem_cons_self)]
    simp [Block.Leaf.mapInlines]
  | table align header rows =>
    have hrow {row : List (List Inline)}
        (hrow : ∀ ts ∈ row, ∀ t ∈ ts, t.height .inclusions = 0) :
        row.mapM (expandInlines (load.moved g)) =
          List.map (Inline.mapTargetsAtAll (inFiles g) none) <$> row.mapM (expandInlines load) :=
      mapM_map_comm fun ts hts => expandInlines_moved load g (hrow ts hts)
    have hheader := hrow fun ts hts => hc ts (List.mem_append_left _ hts)
    have hrows {row : List (List Inline)} (hmem : row ∈ rows) := hrow fun ts hts =>
      hc ts (List.mem_append_right _ (List.mem_flatten.2 ⟨row, hmem, hts⟩))
    rw [expandLeaf, expandLeaf, hheader, mapM_map_comm fun row hmem => hrows hmem]
    simp [Block.Leaf.mapInlines]
  | _ => simp [expandLeaf, Block.Leaf.mapInlines]

/-- **Moving what is loaded.**  To move the targets in what is loaded for the directives of a tree is
to move them in the expanded tree. -/
theorem expandBlock_moved {b : Block} (hb : b.height .inclusions = 0) :
    expandBlock (load.moved g) b = Block.mapTargetsAt (inFiles g) none <$> expandBlock load b := by
  induction b using Block.induction with
  | leaf h c =>
    have hleaf : expandLeaf (load.moved g) c =
        (fun c => c.mapInlines (Inline.mapTargetsAtAll (inFiles g) none)) <$>
          expandLeaf load c := by
      refine expandLeaf_moved load g fun ts hts t ht => ?_
      rw [Block.height_leaf, Block.Leaf.height, Nat.add_eq_zero_iff] at hb
      exact Nat.le_zero.1 (Inline.heightAll_le.1 (Inline.heightRows_le.1 hb.2.le ts hts) t ht)
    cases c with
    | directive d =>
      rw [expandBlock, expandBlock, Loader.moved, map_eq_pure_bind, map_bind, bind_assoc]
      refine bind_congr fun found => ?_
      rw [pure_bind]
      cases found with
      | none => rw [map_pure]; rfl
      | some found =>
        dsimp only [Option.map_some]
        rw [map_pure, includedBlocks_mapTargets, Block.mapTargetsAt, Block.Frame.enter,
          Block.mapTargetsAtAll_some]
        rfl
    | _ =>
      simp only [expandBlock, hleaf]
      simp [Block.mapTargetsAt]
  | node h fr bs ih =>
    rw [Block.height_node, Nat.add_eq_zero_iff] at hb
    have hbs : ∀ b ∈ bs, b.height .inclusions = 0 := fun b hmem =>
      Nat.le_zero.1 (Block.heightAll_le.1 hb.2.le b hmem)
    have henter : fr.enter none = none := by
      cases fr <;> first | rfl | simp [Block.Frame.kind, Weight.inclusions] at hb
    rw [expandBlock, expandBlock, expandBlocks_eq_mapM, expandBlocks_eq_mapM,
      mapM_map_comm fun b hmem => ih b hmem (hbs b hmem)]
    simp [Block.mapTargetsAt, henter, Block.mapTargetsAtAll_eq_map]

end Expand

/-! ## Trees that are moved nowhere -/

lemma Inline.mapTargets_id (t : Inline) : t.mapTargets id = t := by
  induction t using Inline.induction with
  | leaf h c =>
    rw [Inline.mapTargets_leaf]
    cases c <;> rfl
  | node h fr ts ih =>
    rw [Inline.mapTargets_node, Inline.mapTargetsAll_eq_map, List.map_congr_left ih, List.map_id']
    cases fr <;> rfl

lemma Inline.mapTargetsAll_id (ts : List Inline) : Inline.mapTargetsAll id ts = ts := by
  rw [Inline.mapTargetsAll_eq_map, List.map_congr_left fun t _ => t.mapTargets_id, List.map_id']

lemma Block.mapTargets_id (b : Block) : b.mapTargets id = b := by
  induction b using Block.induction with
  | leaf h c =>
    rw [Block.mapTargets_leaf, funext Inline.mapTargetsAll_id]
    cases c <;> simp [Block.Leaf.mapInlines]
  | node h fr bs ih =>
    rw [Block.mapTargets_node, Block.mapTargetsAll_eq_map, List.map_congr_left ih, List.map_id']

/-- The links of an included tree are carried to the directory of the including file. -/
lemma rebaseIncluded_eq (file : Option Path) (path : Path) (root : Block) :
    rebaseIncluded file path root =
      pure (root.mapTargets (carried (file.bind Path.parent?) path.parent?)) := by
  rw [rebaseIncluded]
  split
  next target source htarget hsource =>
    rw [htarget, hsource]
    dsimp only
    split
    next hid =>
      have hsame : carried (some target) (some source) = id :=
        funext fun t => by rw [carried, if_pos hid, id]
      rw [hsame, root.mapTargets_id]
    next hid =>
      have hmoved : carried (some target) (some source) =
          (LinkRebase.between source target).apply :=
        funext fun t => by rw [carried, if_neg hid]
      rw [hmoved, LinkRebase.rewriter_pass]
  next hunknown =>
    have hsame : carried (file.bind Path.parent?) path.parent? = id :=
      funext fun t => carried.eq_2 _ _ t hunknown
    rw [hsame, root.mapTargets_id]

/-! ## Files -/

namespace Engine

variable (e : Engine)

/-- The loader of a file that leaves the links in what it loads where they are. -/
def loadUnmoved (chain : IncludeChain) (file : Option Path) : Loader BuildM := fun d span =>
  match e.resolver.resolve d.path file with
  | none => do
    reportAt file span .includeNotFound
      ("cannot resolve include \x60".toList ++ d.path ++ ['\x60'])
    return none
  | some found =>
    if chain.holds found.path then do
      reportAt file span .circularReference (chain.cycleMessage found.path)
      return none
    else do
      let root ← e.process (chain ++ [found.path]) includeScope (some found.path) found.content
      return some (found.path, root)

/-- The tree of a file before the links in its included content are moved to its directory. -/
def processUnmoved (chain : IncludeChain) (scope : Scope) (file : Option Path) (text : Text) :
    BuildM Block :=
  e.prepare scope file text >>= expandBlock (e.loadUnmoved chain file)

end Engine

/-- A target that comes from a file, or stands in the document itself, as it stands in a document
that is in a directory. -/
def movedTo (dir : Option Path) : Option Path → Text → Text :=
  inFiles fun path => carried dir path.parent?

namespace Engine

variable {e : Engine}

lemma loadIn_eq_moved (chain : IncludeChain) (file : Option Path) :
    e.loadIn chain file = (e.loadUnmoved chain file).moved fun path =>
      carried (file.bind Path.parent?) path.parent? := by
  funext d span
  simp only [loadIn, Loader.moved, loadUnmoved]
  cases e.resolver.resolve d.path file with
  | none => simp
  | some found =>
    dsimp only
    split
    · simp
    · simp [rebaseIncluded_eq]

/-- No file is included in a tree before its directives are expanded. -/
lemma prepare_inclusions (he : e.IsPlain) {scope : Scope} {file : Option Path} {text : Text}
    {root : Block} {j : Journal} (h : (e.prepare scope file text j).1 = .ok root) :
    root.height .inclusions = 0 := by
  obtain ⟨r, hr, hheight⟩ := prepare_succeeds he scope file text j
  rw [h] at hr
  cases hr
  have hweight : Weight.inclusions.onDirectives 0 = .inclusions := by
    simp only [Weight.onDirectives, Weight.inclusions, Weight.mk.injEq]
    exact ⟨funext fun k => by cases k <;> rfl, funext fun k => by cases k <;> rfl⟩
  rw [← hweight]
  exact Nat.le_zero.1 (hheight 0)

/-- **Links are moved in the end.**  The tree of a file is one that is built without moving links,
with the targets in its included content moved to the directory of the file. -/
theorem process_eq_moved (he : e.IsPlain) (chain : IncludeChain) (scope : Scope)
    (file : Option Path) (text : Text) :
    e.process chain scope file text =
      Block.mapTargetsAt (movedTo (file.bind Path.parent?)) none <$>
        e.processUnmoved chain scope file text := by
  rw [process_eq, processUnmoved, map_bind]
  refine bind_congr_build fun j root hroot => ?_
  rw [loadIn_eq_moved]
  exact expandBlock_moved _ _ (prepare_inclusions he hroot)

/-! ## The files in a tree -/

/-- A path under which a target is found in a file. -/
def Finds (e : Engine) (file : Option Path) (path : Path) : Prop :=
  ∃ target found, e.resolver.resolve target file = some found ∧ found.path = path

lemma loadUnmoved_moved_congr {g g' : Path → Text → Text} {file : Option Path}
    (h : ∀ path, e.Finds file path → g path = g' path) (chain : IncludeChain) :
    (e.loadUnmoved chain file).moved g = (e.loadUnmoved chain file).moved g' := by
  funext d span
  simp only [Loader.moved, loadUnmoved]
  cases hfound : e.resolver.resolve d.path file with
  | none => simp
  | some found =>
    have hsame := h found.path ⟨d.path, found, hfound, rfl⟩
    dsimp only
    split
    · simp
    · simp [hsame]

/-- **The included files in a tree** are those that are found in its file.  Else a map over targets
could tell apart whether they are. -/
theorem finds_of_mem_targetsAt (he : e.IsPlain) {chain : IncludeChain} {scope : Scope}
    {file : Option Path} {text : Text} {tree : Block} {j : Journal}
    (htree : (e.processUnmoved chain scope file text j).1 = .ok tree) {path : Path} {target : Text}
    (h : (some path, target) ∈ tree.targetsAt none) : e.Finds file path := by
  classical
  let mark : Path → Text → Text := fun path target =>
    if e.Finds file path then target else 'x' :: target
  have hmark : ∀ path, e.Finds file path → mark path = fun target => target := fun path hfinds =>
    funext fun target => if_pos hfinds
  have hsame : Block.mapTargetsAt (inFiles mark) none <$> e.processUnmoved chain scope file text =
      Block.mapTargetsAt (inFiles fun _ target => target) none <$>
        e.processUnmoved chain scope file text := by
    rw [processUnmoved, map_bind, map_bind]
    refine bind_congr_build fun j root hroot => ?_
    rw [← expandBlock_moved _ _ (prepare_inclusions he hroot),
      ← expandBlock_moved _ _ (prepare_inclusions he hroot), loadUnmoved_moved_congr hmark]
  have htrees : tree.mapTargetsAt (inFiles mark) none =
      tree.mapTargetsAt (inFiles fun _ target => target) none := by
    have hrun := congrArg (fun a : BuildM Block => (a j).1) hsame
    simp only [map_run, htree] at hrun
    exact Except.ok.inj hrun
  by_contra hnone
  have htarget := Block.mapTargetsAt_eq_iff.1 htrees _ h
  simp [inFiles, mark, hnone] at htarget

end Engine

/-! ## Files under two paths -/

/-- Two steps of a build that yield the same, whatever was recorded before. -/
def YieldAlike {α : Type} (a a' : BuildM α) : Prop := ∀ j j', (a j).1 = (a' j').1

lemma yieldAlike_isComposed : IsComposed fun α (a a' : BuildM α) => YieldAlike a a' where
  pure _ _ _ := rfl
  bind {α β a a' f f'} ha hf j j' := by
    show (ExceptT.bindCont f (a j).1 (a j).2).1 = (ExceptT.bindCont f' (a' j').1 (a' j').2).1
    rw [ha j j']
    cases (a' j').1 with
    | error e => rfl
    | ok x => exact hf x _ _

lemma Appends.yieldAlike {α : Type} {a : BuildM α} (ha : Appends a) : YieldAlike a a := by
  obtain ⟨x, k, ha⟩ := ha
  intro j j'
  rw [ha, ha]

namespace Engine

variable {e : Engine} {rules : List TagRule}

lemma prepare_alike (he : e.IsChecking rules) (scope : Scope) (file file' : Option Path)
    (text : Text) : YieldAlike (e.prepare scope file text) (e.prepare scope file' text) := by
  have hread : YieldAlike ((read e.rules scope text : Except Fault Block) : BuildM Block)
      (read e.rules scope text : Except Fault Block) := fun j j' => rfl
  refine yieldAlike_isComposed.bind hread fun source => ?_
  simp only [allPasses, he.passes, List.append_nil, runPasses_append]
  refine yieldAlike_isComposed.bind ?_ fun root j j' => ?_
  · split
    · intro j j'
      obtain ⟨r, hquiet⟩ := headingIdRewriter_isQuiet.pass file' source
      rw [runPasses_singleton, runPasses_singleton, headingIdRewriter_pass_congr file file', hquiet,
        hquiet]
    · exact fun _ _ => rfl
  · rw [checks_run he, checks_run he]

/-- **The path of a file does not matter** to its tree before links are moved, as long as the
targets of its directives are found. -/
theorem processUnmoved_alike (he : e.IsChecking rules) (chain : IncludeChain) (scope : Scope)
    {file file' : Option Path}
    (h : ∀ target, e.resolver.resolve target file = e.resolver.resolve target file') (text : Text) :
    YieldAlike (e.processUnmoved chain scope file text)
      (e.processUnmoved chain scope file' text) := by
  refine yieldAlike_isComposed.bind (prepare_alike he scope file file' text) fun root => ?_
  refine expandBlock_related yieldAlike_isComposed _ _ root fun s _ => ?_
  simp only [loadUnmoved, h]
  cases e.resolver.resolve s.1.path file' with
  | none => exact fun _ _ => rfl
  | some found =>
    dsimp only
    split
    · exact fun _ _ => rfl
    · exact yieldAlike_isComposed.bind (appends_process he _ _ _ _).yieldAlike fun _ _ _ => rfl

end Engine

end Docmark
