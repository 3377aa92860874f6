import Mathlib
import Docmark.Proofs.Inclusion.Diagnostics

/-!
# Directives are replaced in place

An expansion settles the directives of a tree one after the other, in source order: either the tree
of another file is loaded, or the directive stays as it stands in the source.  This module tells
what an expansion that succeeds has done: how each directive was settled and what that added to the
journal, and which tokens stand in the new tree at the places of the old ones.

## Main results

* `expandBlock_runs` — an expansion is the run of its loader along the directives of the tree, and
  the new tree differs from the old one in the directives alone.
* `Engine.expansion_in_place` — the expansion of a tree in a file, each directive settled by what
  its target is.
-/

namespace Docmark

/-! ## Lists with a record -/

/-- Two lists related element by element, where each pair comes with a record, and the records are
one behind the other. -/
inductive Each {α β σ : Type} (R : α → List σ → β → Prop) : List α → List σ → List β → Prop
  | nil : Each R [] [] []
  | cons {a : α} {s ss : List σ} {b : β} {as : List α} {bs : List β} (h : R a s b)
      (hrest : Each R as ss bs) : Each R (a :: as) (s ++ ss) (b :: bs)

/-- Steps along a list: each element takes a state to the next one. -/
inductive Steps {σ S : Type} (step : σ → S → S → Prop) : List σ → S → S → Prop
  | nil {s : S} : Steps step [] s s
  | cons {x : σ} {xs : List σ} {s s' s'' : S} (h : step x s s') (hrest : Steps step xs s' s'') :
      Steps step (x :: xs) s s''

lemma Steps.append {σ S : Type} {step : σ → S → S → Prop} {xs ys : List σ} {s s' s'' : S}
    (h : Steps step xs s s') (h' : Steps step ys s' s'') : Steps step (xs ++ ys) s s'' := by
  induction h with
  | nil => exact h'
  | cons hx _ ih => exact .cons hx (ih h')

lemma Steps.mono {σ S : Type} {step step' : σ → S → S → Prop} {xs : List σ} {s s' : S}
    (h : Steps step xs s s') (himp : ∀ x s s', step x s s' → step' x s s') :
    Steps step' xs s s' := by
  induction h with
  | nil => exact .nil
  | cons hx _ ih => exact .cons (himp _ _ _ hx) ih

/-! ## Trees with settled directives -/

/-- How a directive was settled: the directive, its place, and the file and tree that were loaded
for it, if any were. -/
structure Settlement where
  directive : Directive
  span : Span
  loaded : Option (Path × Block)

/-- The directive that was settled, with its place. -/
def Settlement.site (s : Settlement) : Directive × Span := (s.directive, s.span)

/-- An inline token before and after its directives were settled.  A directive gives way to a token
with its head, which holds the text of the tree that was loaded or the directive as it stands in the
source; all else remains. -/
inductive Inline.Expands : Inline → List Settlement → Inline → Prop
  | included {h : Head} {d : Directive} {path : Path} {root : Block} :
      Expands (.leaf h (.directive d)) [⟨d, h.span, some (path, root)⟩]
        (.node h (.included path) (includedInlines root))
  | raw {h : Head} {d : Directive} :
      Expands (.leaf h (.directive d)) [⟨d, h.span, none⟩] (.leaf h (.raw d.raw))
  | leaf {h : Head} {c : Inline.Leaf} (hc : c.kind ≠ .directive) :
      Expands (.leaf h c) [] (.leaf h c)
  | node {h : Head} {f : Inline.Frame} {ts ts' : List Inline} {ss : List Settlement}
      (hts : Each Expands ts ss ts') : Expands (.node h f ts) ss (.node h f ts')

/-- A leaf before and after the directives in its inline tokens were settled. -/
inductive Block.Leaf.Expands : Block.Leaf → List Settlement → Block.Leaf → Prop
  | heading {depth : ℕ} {id : Option Text} {ts ts' : List Inline} {ss : List Settlement}
      (hts : Each Inline.Expands ts ss ts') :
      Expands (.heading depth id ts) ss (.heading depth id ts')
  | paragraph {ts ts' : List Inline} {ss : List Settlement} (hts : Each Inline.Expands ts ss ts') :
      Expands (.paragraph ts) ss (.paragraph ts')
  | text {ts ts' : List Inline} {ss : List Settlement} (hts : Each Inline.Expands ts ss ts') :
      Expands (.text ts) ss (.text ts')
  | table {align : List (Option Alignment)} {header header' : List (List Inline)}
      {rows rows' : List (List (List Inline))} {ss ss' : List Settlement}
      (hheader : Each (Each Inline.Expands) header ss header')
      (hrows : Each (Each (Each Inline.Expands)) rows ss' rows') :
      Expands (.table align header rows) (ss ++ ss') (.table align header' rows')
  | bare {c : Block.Leaf} (hc : c.inlines = []) : Expands c [] c

/-- A block before and after its directives were settled. -/
inductive Block.Expands : Block → List Settlement → Block → Prop
  | included {h : Head} {d : Directive} {path : Path} {root : Block} :
      Expands (.leaf h (.directive d)) [⟨d, h.span, some (path, root)⟩]
        (.node h (.included path) (includedBlocks root))
  | raw {h : Head} {d : Directive} :
      Expands (.leaf h (.directive d)) [⟨d, h.span, none⟩] (.leaf h (.raw d.raw))
  | leaf {h : Head} {c c' : Block.Leaf} {ss : List Settlement} (hkind : c.kind ≠ .directive)
      (hc : c.Expands ss c') : Expands (.leaf h c) ss (.leaf h c')
  | node {h : Head} {f : Block.Frame} {bs bs' : List Block} {ss : List Settlement}
      (hbs : Each Expands bs ss bs') : Expands (.node h f bs) ss (.node h f bs')

/-! ## Expansion -/

/-- A loader settles a directive, and takes the journal to the next one. -/
def Loader.Settles (load : Loader BuildM) (s : Settlement) (j j' : Journal) : Prop :=
  load s.directive s.span j = (.ok s.loaded, j')

/-- A step of a build that settles some directives one after the other if it succeeds, and relates
what it yields to how they were settled. -/
def Runs {α : Type} (load : Loader BuildM) (a : BuildM α) (sites : List (Directive × Span))
    (R : List Settlement → α → Prop) : Prop :=
  ∀ j x j', a j = (.ok x, j') → ∃ ss, R ss x ∧ ss.map Settlement.site = sites ∧
    Steps load.Settles ss j j'

section Runs

variable {α β : Type} {load : Loader BuildM}

lemma Runs.pure {R : List Settlement → α → Prop} {x : α} (h : R [] x) :
    Runs load (Pure.pure x) [] R := by
  intro j y j' hy
  cases hy
  exact ⟨[], h, rfl, .nil⟩

lemma Runs.bind {sites sites' : List (Directive × Span)} {R : List Settlement → α → Prop}
    {R' : List Settlement → β → Prop} {a : BuildM α} {f : α → BuildM β} (ha : Runs load a sites R)
    (hf : ∀ ss x, R ss x → Runs load (f x) sites' fun ss' y => R' (ss ++ ss') y) :
    Runs load (a >>= f) (sites ++ sites') R' := by
  intro j y j'' hy
  obtain ⟨x, j', hx, hy⟩ := exists_of_bind_run hy
  obtain ⟨ss, hR, hsites, hsteps⟩ := ha j x j' hx
  obtain ⟨ss', hR', hsites', hsteps'⟩ := hf ss x hR j' y j'' hy
  refine ⟨ss ++ ss', hR', ?_, hsteps.append hsteps'⟩
  rw [List.map_append, hsites, hsites']

/-- A step behind which no directive is settled. -/
lemma Runs.bind_silent {sites : List (Directive × Span)} {R : List Settlement → α → Prop}
    {R' : List Settlement → β → Prop} {a : BuildM α} {f : α → BuildM β} (ha : Runs load a sites R)
    (hf : ∀ ss x, R ss x → Runs load (f x) [] fun ss' y => R' (ss ++ ss') y) :
    Runs load (a >>= f) sites R' := by
  rw [← List.append_nil sites]
  exact ha.bind hf

lemma Runs.bind_pure {sites : List (Directive × Span)} {R : List Settlement → α → Prop}
    {R' : List Settlement → β → Prop} {a : BuildM α} {f : α → β} (ha : Runs load a sites R)
    (hf : ∀ ss x, R ss x → R' ss (f x)) :
    Runs load (a >>= fun x => Pure.pure (f x)) sites R' := by
  refine ha.bind_silent fun ss x hx => Runs.pure ?_
  rw [List.append_nil]
  exact hf ss x hx

lemma Runs.mapM {sites : α → List (Directive × Span)} {R : α → List Settlement → β → Prop}
    {f : α → BuildM β} (as : List α) (h : ∀ a ∈ as, Runs load (f a) (sites a) (R a)) :
    Runs load (as.mapM f) (as.flatMap sites) fun ss bs => Each R as ss bs := by
  induction as with
  | nil => exact Runs.pure .nil
  | cons a as ih =>
    rw [List.mapM_cons, List.flatMap_cons]
    have hrest := ih fun a' ha' => h a' (List.mem_cons_of_mem _ ha')
    refine (h a List.mem_cons_self).bind fun s b hb => ?_
    exact hrest.bind_pure fun ss bs hbs => .cons hb hbs

lemma runs_load (d : Directive) (span : Span) :
    Runs load (load d span) [(d, span)] fun ss found => ss = [⟨d, span, found⟩] :=
  fun _ found _ hfound => ⟨[⟨d, span, found⟩], rfl, rfl, .cons hfound .nil⟩

end Runs

section Expand

variable {load : Loader BuildM}

lemma expandInline_runs (t : Inline) :
    Runs load (expandInline load t) t.sites t.Expands := by
  induction t using Inline.induction with
  | leaf h c =>
    cases c with
    | directive d =>
      rw [expandInline]
      refine (runs_load d h.span).bind_silent ?_
      rintro ss found rfl
      cases found with
      | none => exact Runs.pure .raw
      | some found => exact Runs.pure .included
    | _ =>
      rw [Inline.sites_leaf (by simp [Inline.Leaf.kind]), expandInline]
      · exact Runs.pure (.leaf (by simp [Inline.Leaf.kind]))
      · simp
  | node h f ts ih =>
    rw [expandInline, Inline.sites_node, expandInlines_eq_mapM]
    exact (Runs.mapM ts ih).bind_pure fun ss ts' hts => .node hts

lemma expandInlines_runs (ts : List Inline) :
    Runs load (expandInlines load ts) (ts.flatMap Inline.sites)
      (Each Inline.Expands ts) := by
  rw [expandInlines_eq_mapM]
  exact Runs.mapM ts fun t _ => expandInline_runs t

lemma expandRow_runs (row : List (List Inline)) :
    Runs load (row.mapM (expandInlines load)) (row.flatMap (·.flatMap Inline.sites))
      (Each (Each Inline.Expands) row) :=
  Runs.mapM row fun ts _ => expandInlines_runs ts

lemma expandLeaf_runs (c : Block.Leaf) :
    Runs load (expandLeaf load c) (c.inlines.flatMap (·.flatMap Inline.sites)) c.Expands := by
  have hsingle (ts : List Inline) : Runs load (expandInlines load ts)
      ([ts].flatMap (·.flatMap Inline.sites)) (Each Inline.Expands ts) := by
    rw [List.flatMap_singleton]
    exact expandInlines_runs ts
  cases c with
  | heading depth id ts => exact (hsingle ts).bind_pure fun ss ts' hts => .heading hts
  | paragraph ts => exact (hsingle ts).bind_pure fun ss ts' hts => .paragraph hts
  | text ts => exact (hsingle ts).bind_pure fun ss ts' hts => .text hts
  | table align header rows =>
    have hrows : Runs load (rows.mapM (·.mapM (expandInlines load)))
        (rows.flatten.flatMap (·.flatMap Inline.sites)) (Each (Each (Each Inline.Expands)) rows) := by
      rw [← List.flatMap_id, List.flatMap_assoc]
      exact Runs.mapM rows fun row _ => expandRow_runs row
    rw [expandLeaf, Block.Leaf.inlines, List.flatMap_append]
    exact (expandRow_runs header).bind fun ss header' hheader =>
      hrows.bind_pure fun ss' rows' hrows => .table hheader hrows
  | _ => exact Runs.pure (.bare rfl)

/-- **Directives alone.**  An expansion that succeeds is the steps of its loader along the
directives of the tree, and yields the tree with each directive replaced by what was loaded for it,
or by the directive as it stands in the source. -/
theorem expandBlock_runs (b : Block) : Runs load (expandBlock load b) b.sites b.Expands := by
  induction b using Block.induction with
  | leaf h c =>
    cases c with
    | directive d =>
      rw [expandBlock]
      refine (runs_load d h.span).bind_silent ?_
      rintro ss found rfl
      cases found with
      | none => exact Runs.pure .raw
      | some found => exact Runs.pure .included
    | _ =>
      rw [Block.sites_leaf (by simp [Block.Leaf.kind]), expandBlock]
      · exact (expandLeaf_runs _).bind_pure fun ss c' hc =>
          .leaf (by simp [Block.Leaf.kind]) hc
      · simp
  | node h f bs ih =>
    rw [expandBlock, Block.sites_node, expandBlocks_eq_mapM]
    exact (Runs.mapM bs ih).bind_pure fun ss bs' hbs => .node hbs

/-! ## Trees without directives -/

lemma mapM_eq_pure {α : Type} {f : α → BuildM α} {as : List α} (h : ∀ a ∈ as, f a = pure a) :
    as.mapM f = pure as := by
  induction as with
  | nil => rw [List.mapM_nil]
  | cons a as ih =>
    rw [List.mapM_cons, h a List.mem_cons_self, pure_bind,
      ih fun a' ha' => h a' (List.mem_cons_of_mem _ ha'), pure_bind]

lemma expandInline_eq_pure (t : Inline) (ht : t.sites = []) : expandInline load t = pure t := by
  induction t using Inline.induction with
  | leaf h c =>
    cases c with
    | directive d => cases ht
    | _ => simp only [expandInline]
  | node h f ts ih =>
    rw [Inline.sites_node, List.flatMap_eq_nil_iff] at ht
    rw [expandInline, expandInlines_eq_mapM, mapM_eq_pure fun t hmem => ih t hmem (ht t hmem),
      pure_bind]

lemma expandInlines_eq_pure {ts : List Inline} (hts : ts.flatMap Inline.sites = []) :
    expandInlines load ts = pure ts := by
  rw [expandInlines_eq_mapM]
  exact mapM_eq_pure fun t ht => expandInline_eq_pure t (List.flatMap_eq_nil_iff.1 hts t ht)

lemma expandLeaf_eq_pure (c : Block.Leaf) (hc : ∀ ts ∈ c.inlines, ts.flatMap Inline.sites = []) :
    expandLeaf load c = pure c := by
  cases c with
  | heading | paragraph | text =>
    rw [expandLeaf, expandInlines_eq_pure (hc _ List.mem_cons_self), pure_bind]
  | table align header rows =>
    have hheader : header.mapM (expandInlines load) = pure header :=
      mapM_eq_pure fun ts hts => expandInlines_eq_pure (hc ts (List.mem_append_left _ hts))
    have hrow {row : List (List Inline)} (hmem : row ∈ rows) :
        row.mapM (expandInlines load) = pure row :=
      mapM_eq_pure fun ts hts => expandInlines_eq_pure
        (hc ts (List.mem_append_right _ (List.mem_flatten.2 ⟨row, hmem, hts⟩)))
    rw [expandLeaf, hheader, pure_bind, mapM_eq_pure fun row hmem => hrow hmem, pure_bind]
  | _ => rfl

/-- A tree without directives is its own expansion. -/
lemma expandBlock_eq_pure (b : Block) (hb : b.sites = []) : expandBlock load b = pure b := by
  induction b using Block.induction with
  | leaf h c =>
    by_cases hc : c.kind = .directive
    · obtain ⟨d, rfl⟩ := Block.Leaf.exists_of_kind_directive hc
      cases hb
    · rw [Block.sites_leaf hc, List.flatMap_eq_nil_iff] at hb
      rw [expandBlock_leaf hc, expandLeaf_eq_pure c hb, pure_bind]
  | node h f bs ih =>
    rw [Block.sites_node, List.flatMap_eq_nil_iff] at hb
    rw [expandBlock, expandBlocks_eq_mapM, mapM_eq_pure fun b hmem => ih b hmem (hb b hmem),
      pure_bind]

end Expand

/-! ## The directives of a file -/

namespace Engine

/-- How a directive is settled in a file while the files of a chain are open.  If its target is
missing or open, it stays and one warning is added, at its start; else the target is built and its
tree moved to the directory of the file. -/
inductive Settles (e : Engine) (chain : IncludeChain) (file : Option Path) :
    Settlement → Journal → Journal → Prop
  | missing {d : Directive} {span : Span} {j : Journal}
      (hmissing : e.resolver.resolve d.path file = none) :
      Settles e chain file ⟨d, span, none⟩ j
        (j.report ((Diagnostic.warning .includeNotFound
          ("cannot resolve include \x60".toList ++ d.path ++ ['\x60'])).at_ file span.start))
  | circular {d : Directive} {span : Span} {found : Resolved} {j : Journal}
      (hfound : e.resolver.resolve d.path file = some found)
      (hopen : chain.holds found.path = true) :
      Settles e chain file ⟨d, span, none⟩ j
        (j.report ((Diagnostic.warning .circularReference
          (chain.cycleMessage found.path)).at_ file span.start))
  | built {d : Directive} {span : Span} {found : Resolved} {root moved : Block} {j k j' : Journal}
      (hfound : e.resolver.resolve d.path file = some found)
      (hclosed : chain.holds found.path = false)
      (hroot : e.process (chain ++ [found.path]) includeScope (some found.path) found.content j =
        (.ok root, k))
      (hmoved : rebaseIncluded file found.path root k = (.ok moved, j')) :
      Settles e chain file ⟨d, span, some (found.path, moved)⟩ j j'

lemma settles_of_loadIn {e : Engine} {chain : IncludeChain} {file : Option Path} {s : Settlement}
    {j j' : Journal} (h : (e.loadIn chain file).Settles s j j') : e.Settles chain file s j j' := by
  obtain ⟨d, span, loaded⟩ := s
  rw [Loader.Settles] at h
  cases hfound : e.resolver.resolve d.path file with
  | none =>
    simp only [loadIn, hfound] at h
    cases h
    exact .missing hfound
  | some found =>
    simp only [loadIn, hfound] at h
    by_cases hopen : chain.holds found.path = true
    · rw [if_pos hopen] at h
      cases h
      exact .circular hfound hopen
    · rw [if_neg hopen] at h
      obtain ⟨root, k, hroot, h⟩ := exists_of_bind_run h
      obtain ⟨moved, k', hmoved, h⟩ := exists_of_bind_run h
      cases h
      exact .built hfound (by simpa using hopen) hroot hmoved

/-- **Expansion touches nothing but directives.**  An expansion that succeeds yields the tree that
it was given, with every directive, wherever it stands, replaced in its place by a token with the
same head: by the content of its target, or by itself as raw text.  The directives are settled one
after the other, each as its target demands.  A tree without directives is its own expansion, and
nothing is recorded. -/
theorem expansion_in_place (e : Engine) (chain : IncludeChain) (file : Option Path) (root : Block)
    (j : Journal) :
    (∀ root' j', expandBlock (e.loadIn chain file) root j = (.ok root', j') →
      ∃ ss, root.Expands ss root' ∧ ss.map Settlement.site = root.sites ∧
        Steps (e.Settles chain file) ss j j') ∧
      (root.sites = [] → expandBlock (e.loadIn chain file) root j = (.ok root, j)) := by
  constructor
  · intro root' j' h
    obtain ⟨ss, hroot, hsites, hsteps⟩ := expandBlock_runs root j root' j' h
    exact ⟨ss, hroot, hsites, hsteps.mono fun _ _ _ hs => settles_of_loadIn hs⟩
  · intro hroot
    rw [expandBlock_eq_pure root hroot]
    rfl

/-- A table with one cell and a block behind it. -/
def cellAndBlock (c : Inline.Leaf) (l : Block.Leaf) : Block :=
  .node ⟨"document", ⟨{}, {}⟩⟩ .document
    [.leaf ⟨"table", ⟨{}, {}⟩⟩ (.table [] [] [[[.leaf ⟨"include_inline", ⟨{}, {}⟩⟩ c]]]),
      .leaf ⟨"include", ⟨{}, {}⟩⟩ l]

/-- A directive in a cell, whose target is missing, and one for the file with the table itself. -/
theorem expansion_in_place_raw :
    ∃ ss, (cellAndBlock (.directive ⟨[], ['a'], ['A']⟩) (.directive ⟨[], ['b'], ['B']⟩)).Expands ss
        (cellAndBlock (.raw ['A']) (.raw ['B'])) ∧ ss.length = 2 := by
  obtain ⟨ss, htree, hsites, -⟩ := (expansion_in_place
    { resolver := MemoryFiles.resolver [(['b'], [])] } [['b']] (some ['b'])
    (cellAndBlock (.directive ⟨[], ['a'], ['A']⟩) (.directive ⟨[], ['b'], ['B']⟩)) {}).1
    (cellAndBlock (.raw ['A']) (.raw ['B'])) _ rfl
  refine ⟨ss, htree, ?_⟩
  rw [← List.length_map Settlement.site, hsites]
  rfl

end Engine

end Docmark
