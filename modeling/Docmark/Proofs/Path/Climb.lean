import Mathlib
import Docmark.Proofs.Path.Place

/-!
# Absolute paths

Steps to the parent lead nowhere from the root.  The normal form of a path may keep one of them
there, and takes it back with the next; so below the root a normal form is not the place that the
path leads to, but it tells the place: one has to pass over the step that was kept.

## Main results

* `Path.Place.IsNormal.settle_walk` — steps from the root, with and without the one that is kept.
* `Path.resolve_eq_settle` — the place to which an absolute path leads, by its normal form.
-/

namespace Docmark

namespace Path

/-- The place without a step to the parent that was kept. -/
def Place.settle (here : Place) : Place := ⟨here.absolute, here.trail.filter (· ≠ ['.', '.'])⟩

lemma Place.settle_names {absolute : Bool} {names up : List Text} (hnames : ∀ s ∈ names, IsName s)
    (hup : up = [] ∨ up = [['.', '.']]) :
    Place.settle ⟨absolute, names ++ up⟩ = ⟨absolute, names⟩ := by
  have hkept : names.filter (· ≠ ['.', '.']) = names :=
    List.filter_eq_self.2 fun s hs => by simpa using (hnames s hs).2.2.1
  have hgone : up.filter (· ≠ ['.', '.']) = [] := by
    rcases hup with rfl | rfl <;> rfl
  rw [Place.settle, List.filter_append, hkept, hgone, List.append_nil]

/-- One step: what is kept at the root is not climbed. -/
lemma Place.IsNormal.settle_step {here : Place} (h : here.IsNormal) (habs : here.absolute = true)
    {c : Component} (hc : c.IsStep) : (here.step c).settle = here.settle.climb c := by
  obtain ⟨names, up, htrail, hnames, hup⟩ := h
  obtain ⟨absolute, trail⟩ := here
  obtain rfl : trail = names ++ up := htrail
  obtain rfl : absolute = true := habs
  rw [settle_names hnames hup]
  cases hc with
  | @name s hs =>
    have hmore : ∀ n ∈ s :: names, IsName n := List.forall_mem_cons.2 ⟨hs, hnames⟩
    have hsettle : Place.settle ⟨true, (s :: names) ++ up⟩ = ⟨true, s :: names⟩ :=
      settle_names hmore hup
    exact hsettle
  | parent =>
    cases names with
    | nil => rcases hup with rfl | rfl <;> rfl
    | cons n names =>
      rw [List.forall_mem_cons] at hnames
      have hclimb : Place.climb ⟨true, n :: names⟩ .parent = ⟨true, names⟩ :=
        if_neg hnames.1.2.2.1
      rw [hclimb]
      exact settle_names hnames.2 hup

/-- **Steps from the root.**  The place to which steps lead below the root is told by the one of
which the normal form is made. -/
theorem Place.IsNormal.settle_walk {here : Place} (h : here.IsNormal) (habs : here.absolute = true)
    {cs : List Component} (hcs : ∀ c ∈ cs, c.IsStep) :
    cs.foldl Place.climb here.settle = (here.walk cs).settle := by
  induction cs generalizing here with
  | nil => rfl
  | cons c cs ih =>
    rw [List.forall_mem_cons] at hcs
    have habs' : (here.step c).absolute = true := by
      obtain ⟨absolute, trail⟩ := here
      cases hcs.1 with
      | parent => cases trail <;> exact habs
      | name => exact habs
    rw [List.foldl_cons, ← h.settle_step habs hcs.1, ih (h.step hcs.1) habs' hcs.2,
      Place.walk_cons]

/-- **Where an absolute path leads**, its normal form tells. -/
theorem resolve_eq_settle {p : Path} (h : p.isAbsolute = true) : p.resolve = p.place.settle := by
  have hroot : Place.climb ⟨false, []⟩ .root = Place.settle ⟨true, []⟩ := rfl
  rw [resolve, components_eq, lead, if_pos h, List.singleton_append, List.foldl_cons, hroot,
    (Place.isNormal_start true).settle_walk rfl p.steps_isStep, place_eq, h]

/-- A path without steps to the parent keeps none. -/
lemma notMem_trail_place {p : Path} (h : .parent ∉ p.components) : ['.', '.'] ∉ p.place.trail := by
  have hwalk (cs : List Component) (hcs : ∀ c ∈ cs, c.IsStep) (hparent : .parent ∉ cs)
      (here : Place) (hhere : ['.', '.'] ∉ here.trail) : ['.', '.'] ∉ (here.walk cs).trail := by
    induction cs generalizing here with
    | nil => exact hhere
    | cons c cs ih =>
      rw [List.forall_mem_cons] at hcs
      rw [List.mem_cons, not_or] at hparent
      refine ih hcs.2 hparent.2 _ ?_
      cases hcs.1 with
      | parent => exact absurd rfl hparent.1
      | name hs => exact fun hmem => (List.mem_cons.1 hmem).elim (Ne.symm hs.2.2.1) hhere
  rw [place_eq]
  refine hwalk _ p.steps_isStep (fun hmem => h ?_) _ List.not_mem_nil
  rw [components_eq]
  exact List.mem_append_right _ hmem

/-- From a directory without steps to the parent there is a way to every path. -/
lemma exists_stepsFrom {base : List Component} (hcurrent : .current ∉ base)
    (hparent : .parent ∉ base) (path : List Component) :
    ∃ cs, stepsFrom false path base = some cs := by
  induction base generalizing path with
  | nil => exact ⟨path, stepsFrom.eq_1 _ _⟩
  | cons b base ih =>
    rw [List.mem_cons, not_or] at hcurrent hparent
    cases path with
    | nil => exact ⟨_, stepsFrom_nil _ _⟩
    | cons a path =>
      by_cases hab : a = b
      · obtain ⟨cs, hcs⟩ := ih hcurrent.2 hparent.2 path
        exact ⟨cs, by simp [stepsFrom, hab, hcs]⟩
      · refine ⟨.parent :: (base.map fun _ => .parent) ++ a :: path, ?_⟩
        simp [stepsFrom, hab, Ne.symm hcurrent.1, Ne.symm hparent.1]

/-- From an absolute directory without steps to the parent, every absolute path can be seen. -/
lemma exists_relativeTo? {p base : Path} (hp : p.isAbsolute = true) (hbase : base.isAbsolute = true)
    (hparent : .parent ∉ base.components) :
    ∃ q, p.normalize.relativeTo? base.normalize = some q := by
  have hnone := notMem_trail_place hparent
  have hbaseAbs : base.place.absolute = true := by rw [place_absolute, hbase]
  have hpAbs : p.place.absolute = true := by rw [place_absolute, hp]
  have hsteps (c : Component) (hc : c ∈ base.normalize.components) :
      c = .root ∨ ∃ s, c = .name s := by
    rw [normalize_eq, base.place_isNormal.components_path, if_pos hbaseAbs, List.singleton_append,
      List.mem_cons] at hc
    refine hc.imp_right fun hc => ?_
    obtain ⟨s, hs, rfl⟩ := List.mem_map.1 hc
    refine ⟨s, if_neg ?_⟩
    rintro rfl
    exact hnone (List.mem_reverse.1 hs)
  have hcurrent : .current ∉ base.normalize.components := fun hmem => by simpa using hsteps _ hmem
  have hparent' : .parent ∉ base.normalize.components := fun hmem => by simpa using hsteps _ hmem
  obtain ⟨cs, hcs⟩ := exists_stepsFrom hcurrent hparent' p.normalize.components
  refine ⟨ofComponents cs, ?_⟩
  rw [relativeTo?, isAbsolute_normalize, isAbsolute_normalize, hbaseAbs, hpAbs, if_pos rfl, hcs,
    Option.map_some]

end Path

end Docmark
