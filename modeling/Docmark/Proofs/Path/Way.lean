import Mathlib
import Docmark.Include
import Docmark.Proofs.Path.Climb

/-!
# The way of a relative path

A relative path leads some steps up from wherever it starts, and then down along names.  That is all
that it says: two paths lead to the same place from every directory that lies deep enough if and
only if they have the same way.  The normal form keeps the names, but of the steps up it keeps at
most one, since each step to the parent takes back the one before it; so it is faithful to the paths
that climb at most once, and a key under which files are kept in memory stands for more than one
place.

## Main results

* `Path.resolve_join_eq` — where a relative path leads from a directory, by its way.
* `Path.samePlace_iff` — the paths that lead to the same places are those with the same way.
* `Path.normalize_eq_written` — the normal form of a relative path.
* `Path.normalize_keeps_names` — what normal forms and the keys of files in memory tell of a path.
-/

namespace Docmark

namespace Path

/-! ## Ways -/

/-- How a relative path leads on: some steps up, and then down along names, the last one first. -/
structure Way where
  up : Nat
  names : List Text
deriving DecidableEq

namespace Way

/-- The way with one more step.  A step to the parent takes back the last name; where there is none,
it leads further up. -/
def step (w : Way) : Component → Way
  | .parent =>
    match w.names with
    | [] => ⟨w.up + 1, []⟩
    | _ :: names => ⟨w.up, names⟩
  | .name s => ⟨w.up, s :: w.names⟩
  | _ => w

/-- The components of a way: first all steps up, then the names. -/
def components (w : Way) : List Component :=
  List.replicate w.up .parent ++ w.names.reverse.map .name

/-- The way of which steps up are taken back in pairs. -/
def halved (w : Way) : Way := ⟨w.up % 2, w.names⟩

lemma halved_of_le_one {w : Way} (h : w.up ≤ 1) : w.halved = w := by
  rw [halved, Nat.mod_eq_of_lt (by omega)]

/-- A way along names that are names of files or directories. -/
def HasNames (w : Way) : Prop := ∀ s ∈ w.names, IsName s

lemma HasNames.isStep {w : Way} (h : w.HasNames) : ∀ c ∈ w.components, c.IsStep := by
  intro c hc
  rcases List.mem_append.1 hc with hc | hc
  · rw [List.eq_of_mem_replicate hc]
    exact .parent
  · obtain ⟨s, hs, rfl⟩ := List.mem_map.1 hc
    exact .name (h s (List.mem_reverse.1 hs))

lemma foldl_step_replicate (w : Way) (hw : w.names = []) (n : Nat) :
    (List.replicate n .parent).foldl step w = ⟨w.up + n, []⟩ := by
  induction n generalizing w with
  | zero =>
    obtain ⟨up, names⟩ := w
    obtain rfl : names = [] := hw
    rfl
  | succ n ih =>
    have hstep : w.step .parent = ⟨w.up + 1, []⟩ := by rw [step, hw]
    rw [List.replicate_succ, List.foldl_cons, hstep, ih _ rfl, Nat.add_assoc, Nat.add_comm 1]

lemma foldl_step_names (w : Way) (names : List Text) :
    (names.map Component.name).foldl step w = ⟨w.up, names.reverse ++ w.names⟩ := by
  induction names generalizing w with
  | nil => rfl
  | cons s names ih =>
    rw [List.map_cons, List.foldl_cons, ih]
    simp [step]

/-- The components of a way lead along the way. -/
lemma foldl_step_components (w : Way) : w.components.foldl step ⟨0, []⟩ = w := by
  rw [components, List.foldl_append, foldl_step_replicate _ rfl, foldl_step_names]
  simp

end Way

/-- The way of a path. -/
def way (p : Path) : Way := p.components.foldl Way.step ⟨0, []⟩

lemma way_eq (p : Path) : p.way = p.steps.foldl Way.step ⟨0, []⟩ := by
  rw [way, components_eq, List.foldl_append, lead]
  split
  · rfl
  · split <;> rfl

lemma foldl_step_hasNames {cs : List Component} (hcs : ∀ c ∈ cs, c.IsStep) :
    (cs.foldl Way.step ⟨0, []⟩).HasNames := by
  induction cs using List.reverseRecOn with
  | nil => exact nofun
  | append_singleton cs c ih =>
    have hnames := ih fun d hd => hcs d (List.mem_append_left _ hd)
    have hc : c.IsStep := hcs c (by simp)
    rw [List.foldl_append, List.foldl_cons, List.foldl_nil]
    generalize cs.foldl Way.step ⟨0, []⟩ = w at hnames
    obtain ⟨up, names⟩ := w
    cases hc with
    | name hs => exact List.forall_mem_cons.2 ⟨hs, hnames⟩
    | parent =>
      cases names with
      | nil => exact nofun
      | cons n names => exact fun s hs => hnames s (List.mem_cons_of_mem _ hs)

lemma way_hasNames (p : Path) : p.way.HasNames := by
  rw [way_eq]
  exact foldl_step_hasNames p.steps_isStep

lemma way_written {w : Way} (h : w.HasNames) : (written w.components).way = w := by
  rw [way, components_written h.isStep, w.foldl_step_components]

/-! ## From a directory -/

/-- One step from where a way leads: names are taken back first, then those of the directory. -/
lemma climb_way {w : Way} (hw : w.HasNames) {trail : List Text} (htrail : ['.', '.'] ∉ trail)
    {c : Component} (hc : c.IsStep) :
    Place.climb ⟨true, w.names ++ trail.drop w.up⟩ c =
      ⟨true, (w.step c).names ++ trail.drop (w.step c).up⟩ := by
  obtain ⟨up, names⟩ := w
  cases hc with
  | name hs => rfl
  | parent =>
    cases names with
    | cons n names =>
      have hn : n ≠ ['.', '.'] := (hw n List.mem_cons_self).2.2.1
      exact if_neg hn
    | nil =>
      have hdrop : trail.drop (up + 1) = (trail.drop up).tail := by rw [List.tail_drop]
      cases htop : trail.drop up with
      | nil =>
        rw [htop] at hdrop
        simp [Place.climb, Way.step, hdrop]
      | cons top rest =>
        have hne : top ≠ ['.', '.'] := by
          rintro rfl
          exact htrail (List.mem_of_mem_drop (htop ▸ List.mem_cons_self))
        rw [htop] at hdrop
        simp [Place.climb, Way.step, hdrop, hne]

/-- The place of a directory is told by names. -/
lemma notMem_trail_resolve {d : Path} (hd : d.isAbsolute = true) :
    ['.', '.'] ∉ d.resolve.trail := by
  rw [resolve_eq_settle hd]
  intro h
  simpa using (List.mem_filter.1 h).2

lemma resolve_absolute {d : Path} (hd : d.isAbsolute = true) : d.resolve.absolute = true := by
  rw [resolve_eq_settle hd, Place.settle, place_absolute, hd]

lemma resolve_join {d p : Path} (hd : d.isAbsolute = true) (hp : p.isAbsolute = false) :
    (d.join p).resolve = p.steps.foldl Place.climb d.resolve := by
  have hjoin : (d.join p).isAbsolute = true := by rw [isAbsolute_join d hp, hd]
  rw [resolve, resolve, components_eq, components_eq d, lead, lead, if_pos hjoin, if_pos hd,
    steps_join d hp, ← List.append_assoc, List.foldl_append]

/-- **Where a relative path leads from a directory.**  As many names of the directory are gone as
the path leads up, or all of them, and the names of the path follow. -/
theorem resolve_join_eq {d p : Path} (hd : d.isAbsolute = true) (hp : p.isAbsolute = false) :
    (d.join p).resolve = ⟨true, p.way.names ++ d.resolve.trail.drop p.way.up⟩ := by
  have hdots := notMem_trail_resolve hd
  have hwalk (cs : List Component) (hcs : ∀ c ∈ cs, c.IsStep) :
      cs.foldl Place.climb d.resolve = ⟨true, (cs.foldl Way.step ⟨0, []⟩).names ++
        d.resolve.trail.drop (cs.foldl Way.step ⟨0, []⟩).up⟩ := by
    induction cs using List.reverseRecOn with
    | nil =>
      rw [List.foldl_nil, ← resolve_absolute hd]
      rfl
    | append_singleton cs c ih =>
      have hcs' : ∀ d ∈ cs, d.IsStep := fun d hd => hcs d (List.mem_append_left _ hd)
      rw [List.foldl_append, List.foldl_append, ih hcs']
      exact climb_way (foldl_step_hasNames hcs') hdots (hcs c (by simp))
  rw [resolve_join hd hp, hwalk _ p.steps_isStep, ← way_eq]

/-! ## Paths that denote the same place -/

/-- Two relative paths that lead to the same place from every directory that is deep enough for
both. -/
def SamePlace (p q : Path) : Prop :=
  ∀ d : Path, d.isAbsolute = true → p.way.up ≤ d.resolve.trail.length →
    q.way.up ≤ d.resolve.trail.length → (d.join p).resolve = (d.join q).resolve

/-- There is a directory of any depth, all of whose names are the same. -/
lemma exists_deep {s : Text} (hs : IsName s) (n : Nat) :
    ∃ d : Path, d.isAbsolute = true ∧ d.resolve.trail = List.replicate n s := by
  have hnames : ∀ t ∈ List.replicate n s, IsName t := fun t ht => List.eq_of_mem_replicate ht ▸ hs
  have hnormal : Place.IsNormal ⟨true, List.replicate n s⟩ :=
    ⟨List.replicate n s, [], (List.append_nil _).symm, hnames, .inl rfl⟩
  have habs : (Place.path ⟨true, List.replicate n s⟩).isAbsolute = true := hnormal.isAbsolute_path
  refine ⟨_, habs, ?_⟩
  have hsettle : Place.settle ⟨true, List.replicate n s ++ []⟩ = ⟨true, List.replicate n s⟩ :=
    Place.settle_names hnames (.inl rfl)
  rw [List.append_nil] at hsettle
  rw [resolve_eq_settle habs, hnormal.place_path, hsettle]

/-- There is a name that none of some names is. -/
lemma exists_isName {names : List Text} (hnames : ∀ s ∈ names, IsName s) :
    ∃ s, IsName s ∧ s ∉ names := by
  refine ⟨'x' :: names.flatten, ⟨List.cons_ne_nil _ _, by simp, by simp, ?_⟩, ?_⟩
  · simpa using fun s hs => (hnames s hs).2.2.2
  · intro hmem
    have hlength := (List.infix_of_mem_flatten hmem).length_le
    rw [List.length_cons] at hlength
    omega

/-- **The same place, the same way.**  Relative paths denote the same place if and only if they lead
equally far up and then down along the same names. -/
theorem samePlace_iff {p q : Path} (hp : p.isAbsolute = false) (hq : q.isAbsolute = false) :
    p.SamePlace q ↔ p.way = q.way := by
  refine ⟨fun h => ?_, fun h d hd _ _ => by rw [resolve_join_eq hd hp, resolve_join_eq hd hq, h]⟩
  -- from below a name that neither path mentions, both ways can be told from the place
  have hboth : ∀ s ∈ p.way.names ++ q.way.names, IsName s := fun s hs =>
    (List.mem_append.1 hs).elim (p.way_hasNames s) (q.way_hasNames s)
  obtain ⟨s, hs, hfresh⟩ := exists_isName hboth
  rw [List.mem_append, not_or] at hfresh
  set n := p.way.up + q.way.up + 1 with hn
  obtain ⟨d, hd, htrail⟩ := exists_deep hs n
  have hplace := h d hd (by rw [htrail, List.length_replicate]; omega)
    (by rw [htrail, List.length_replicate]; omega)
  rw [resolve_join_eq hd hp, resolve_join_eq hd hq, htrail, List.drop_replicate,
    List.drop_replicate] at hplace
  have htrails := congrArg Place.trail hplace
  have hfront {w : Way} (hw : s ∉ w.names) (hup : w.up < n) :
      (w.names ++ List.replicate (n - w.up) s).takeWhile (· ≠ s) = w.names := by
    rw [List.takeWhile_append_of_pos fun t ht => by simpa using fun heq : t = s => hw (heq ▸ ht)]
    obtain ⟨m, hm⟩ : ∃ m, n - w.up = m + 1 := ⟨n - w.up - 1, by omega⟩
    simp [hm, List.replicate_succ]
  have hnames : p.way.names = q.way.names := by
    rw [← hfront hfresh.1 (by omega), ← hfront hfresh.2 (by omega)]
    exact congrArg _ htrails
  have hlengths := congrArg List.length htrails
  simp only [hnames, List.length_append, List.length_replicate] at hlengths
  have hup : p.way.up = q.way.up := by omega
  exact Way.mk.injEq .. ▸ ⟨hup, hnames⟩

/-! ## Normal forms -/

/-- The place of which the normal form is made, by the way: at most one step up is left. -/
def Way.place (w : Way) : Place := ⟨false, w.names ++ List.replicate (w.up % 2) ['.', '.']⟩

/-- One step.  A step to the parent takes back a step up that was kept, so that the steps up cancel
in pairs. -/
lemma Way.place_step (w : Way) {c : Component} (hc : c.IsStep) :
    (w.step c).place = w.place.step c := by
  obtain ⟨up, names⟩ := w
  cases hc with
  | name hs => rfl
  | parent =>
    cases names with
    | cons n names => rfl
    | nil =>
      rcases Nat.mod_two_eq_zero_or_one up with h | h
      · have hnext : (up + 1) % 2 = 1 := by omega
        simp [Way.place, Way.step, Place.step, h, hnext]
      · have hnext : (up + 1) % 2 = 0 := by omega
        simp [Way.place, Way.step, Place.step, h, hnext]

lemma place_eq_way {p : Path} (hp : p.isAbsolute = false) : p.place = p.way.place := by
  have hwalk (cs : List Component) (hcs : ∀ c ∈ cs, c.IsStep) (w : Way) :
      w.place.walk cs = (cs.foldl Way.step w).place := by
    induction cs generalizing w with
    | nil => rfl
    | cons c cs ih =>
      rw [List.forall_mem_cons] at hcs
      rw [Place.walk_cons, ← w.place_step hcs.1, ih hcs.2, List.foldl_cons]
  rw [place_eq, hp, way_eq]
  exact hwalk _ p.steps_isStep ⟨0, []⟩

lemma Way.HasNames.steps_place {w : Way} (h : w.HasNames) :
    w.place.steps = w.halved.components := by
  have hnames : w.names.reverse.map trailStep = w.names.reverse.map .name := by
    refine List.map_congr_left fun s hs => if_neg ?_
    exact (h s (List.mem_reverse.1 hs)).2.2.1
  rw [Place.steps, Way.place, List.reverse_append, List.map_append, hnames, List.reverse_replicate,
    List.map_replicate]
  rfl

/-- **The normal form of a relative path**: the names that remain, below at most one step up. -/
theorem normalize_eq_written {p : Path} (hp : p.isAbsolute = false) :
    p.normalize = written p.way.halved.components := by
  rw [normalize_eq, place_eq_way hp, Place.path_eq, p.way_hasNames.steps_place]
  rfl

lemma halved_hasNames (p : Path) : p.way.halved.HasNames := p.way_hasNames

lemma isAbsolute_normalize_of_relative {p : Path} (hp : p.isAbsolute = false) :
    p.normalize.isAbsolute = false := by
  rw [isAbsolute_normalize, place_absolute, hp]

lemma way_normalize {p : Path} (hp : p.isAbsolute = false) : p.normalize.way = p.way.halved := by
  rw [normalize_eq_written hp, way_written p.halved_hasNames]

/-- The paths with the normal form of a relative one. -/
lemma normalize_eq_iff_halved {p q : Path} (hp : p.isAbsolute = false) :
    q.normalize = p.normalize ↔ q.isAbsolute = false ∧ q.way.halved = p.way.halved := by
  constructor
  · intro h
    have hq : q.isAbsolute = false := by
      rw [← place_absolute, ← isAbsolute_normalize, h, isAbsolute_normalize_of_relative hp]
    exact ⟨hq, by rw [← way_normalize hq, h, way_normalize hp]⟩
  · rintro ⟨hq, h⟩
    rw [normalize_eq_written hq, normalize_eq_written hp, h]

/-- From a directory that is deep enough, the normal form leads where the path leads if and only if
the path leads up at most one step. -/
lemma resolve_join_normalize_iff {d p : Path} (hd : d.isAbsolute = true)
    (hp : p.isAbsolute = false) (hdeep : p.way.up ≤ d.resolve.trail.length) :
    (d.join p.normalize).resolve = (d.join p).resolve ↔ p.way.up ≤ 1 := by
  rw [resolve_join_eq hd (isAbsolute_normalize_of_relative hp), resolve_join_eq hd hp,
    way_normalize hp]
  constructor
  · intro h
    have hlength := congrArg List.length (List.append_cancel_left (congrArg Place.trail h))
    have hup : p.way.halved.up = p.way.up % 2 := rfl
    rw [List.length_drop, List.length_drop, hup] at hlength
    omega
  · intro h
    rw [Way.halved_of_le_one h]

end Path

/-! ## Keys of files in memory -/

namespace MemoryFiles

/-- The paths that are tried for a target, in order, as they are written. -/
def tried (q : Path) (file : Option Path) : List Path :=
  ((file.bind Path.parent?).map fun dir => dir.join q).toList ++ [q]

lemma candidates_eq (q : Path) (file : Option Path) :
    candidates q file = (tried q file).map Path.normalize := by
  rw [candidates, tried]
  cases file.bind Path.parent? <;> rfl

/-- What is found under a key once the content of a path is set. -/
lemma lookup_insert (files : MemoryFiles) (p : Path) (content : Text) (k : Path) :
    (files.insert p content).lookup k =
      if k = p.normalize then some content else files.lookup k := by
  have hothers (hk : k ≠ p.normalize) :
      (files.filter fun f => f.1 ≠ p.normalize).lookup k = files.lookup k := by
    induction files with
    | nil => rfl
    | cons f files ih =>
      obtain ⟨key, text⟩ := f
      by_cases hkey : key = p.normalize
      · rw [List.filter_cons_of_neg (by simpa using hkey), ih, List.lookup_cons,
          beq_false_of_ne (hkey ▸ hk)]
      · rw [List.filter_cons_of_pos (by simpa using hkey), List.lookup_cons, List.lookup_cons, ih]
  rw [insert, List.lookup_cons]
  split
  next h => rw [if_pos (eq_of_beq h)]
  next h =>
    have hk : k ≠ p.normalize := fun heq => by simp [heq] at h
    rw [hothers hk, if_neg hk]

/-- A target is found at the first path tried for it that has content, and the content of a relative
path is that of all paths with the same names below the same step up, if any. -/
lemma resolve_insert (files : MemoryFiles) {p : Path} (hp : p.isAbsolute = false) (content : Text)
    (q : Path) (file : Option Path) :
    (files.insert p content).resolve q file = (tried q file).findSome? fun r =>
      if r.isAbsolute = false ∧ r.way.halved = p.way.halved then some ⟨content, p.normalize⟩
      else (files.lookup r.normalize).map fun text => ⟨text, r.normalize⟩ := by
  rw [resolve, candidates_eq, List.findSome?_map]
  refine congrArg (List.findSome? · _) (funext fun r => ?_)
  rw [Function.comp_apply, lookup_insert]
  by_cases h : r.normalize = p.normalize
  · rw [if_pos h, if_pos ((Path.normalize_eq_iff_halved hp).1 h), h]
    rfl
  · rw [if_neg h, if_neg (mt (Path.normalize_eq_iff_halved hp).2 h)]

end MemoryFiles

namespace Path

/-- **What normal forms tell.**  The normal form of a relative path keeps the names that remain, and
of the steps up what is left when they cancel in pairs.  So it leads where the path leads just for
the paths that lead up at most once, and two of these have one key in memory if and only if they
denote the same place.  A target finds the content of the first path tried for it whose key is
set. -/
theorem normalize_keeps_names {p : Path} (hp : p.isAbsolute = false) :
    p.normalize = written p.way.halved.components ∧
    (∀ d : Path, d.isAbsolute = true → p.way.up ≤ d.resolve.trail.length →
      ((d.join p.normalize).resolve = (d.join p).resolve ↔ p.way.up ≤ 1)) ∧
    (∀ q : Path, q.isAbsolute = false →
      (p.SamePlace q ↔ p.way = q.way) ∧
      (p.normalize = q.normalize ↔ p.way.halved = q.way.halved) ∧
      (p.way.up ≤ 1 → q.way.up ≤ 1 → (p.normalize = q.normalize ↔ p.SamePlace q))) ∧
    ∀ (files : MemoryFiles) (content : Text) (q : Path) (file : Option Path),
      (files.insert p content).resolve q file = (MemoryFiles.tried q file).findSome? fun r =>
        if r.isAbsolute = false ∧ r.way.halved = p.way.halved then some ⟨content, p.normalize⟩
        else (files.lookup r.normalize).map fun text => ⟨text, r.normalize⟩ := by
  have hkeys (q : Path) (hq : q.isAbsolute = false) :
      p.normalize = q.normalize ↔ p.way.halved = q.way.halved := by
    rw [normalize_eq_iff_halved hq, and_iff_right hp]
  refine ⟨normalize_eq_written hp, fun d hd => resolve_join_normalize_iff hd hp,
    fun q hq => ⟨samePlace_iff hp hq, hkeys q hq, fun hpUp hqUp => ?_⟩,
    fun files => files.resolve_insert hp⟩
  rw [hkeys q hq, samePlace_iff hp hq, Way.halved_of_le_one hpUp, Way.halved_of_le_one hqUp]

theorem normalize_keeps_names_up_once :
    isAbsolute "a/../../b/./c".toList = false ∧ isAbsolute "../b/c".toList = false ∧
      way "a/../../b/./c".toList = ⟨1, ["c".toList, "b".toList]⟩ ∧
      normalize "a/../../b/./c".toList = normalize "../b/c".toList ∧
      SamePlace "a/../../b/./c".toList "../b/c".toList := by
  obtain ⟨-, -, hkeys, -⟩ := normalize_keeps_names (p := "a/../../b/./c".toList) rfl
  obtain ⟨hplace, hkey, -⟩ := hkeys "../b/c".toList rfl
  exact ⟨rfl, rfl, rfl, hkey.2 rfl, hplace.2 rfl⟩

/-- The second of two steps up takes back the first: `../..` has the normal form of the empty path,
and a file set below it is found where it is not. -/
theorem steps_up_cancel :
    isAbsolute "../..".toList = false ∧ way "../..".toList = ⟨2, []⟩ ∧
      normalize "../..".toList = [] ∧
      (join "/a/b/c".toList "../..".toList).resolve = ⟨true, ["a".toList]⟩ ∧
      (join "/a/b/c".toList (normalize "../..".toList)).resolve =
        ⟨true, ["c".toList, "b".toList, "a".toList]⟩ ∧
      (MemoryFiles.insert [] "../../a.md".toList "A".toList).resolve "a.md".toList none =
        some ⟨"A".toList, "a.md".toList⟩ ∧
      ¬ SamePlace "../../a.md".toList "a.md".toList := by
  refine ⟨rfl, rfl, rfl, rfl, rfl, rfl, fun h => ?_⟩
  exact absurd ((samePlace_iff rfl rfl).1 h) (by decide)

end Path

end Docmark
