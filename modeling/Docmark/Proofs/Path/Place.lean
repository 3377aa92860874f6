import Mathlib
import Docmark.Path

/-!
# Places of paths

A path is a list of pieces between slashes; its components are those of its pieces that are a step.
Lexically, a path leads to a place, and a place in normal form is written as a path that leads to
it: below a start, at most one step to the parent and then names.  Joining a relative path to a
directory goes on from the place of the directory.

## Main results

* `Path.Place.IsNormal.place_path` — a place in normal form is the place of its own path.
* `Path.place_join` — the place of a path as seen from a directory.
* `Path.walk_of_stepsFrom` — the components from a directory to a path lead from the place of the
  one to the place of the other.
* `Path.relativeTo?_slashed` — the relative path from a directory leads to the place of the path.
* `Path.resolve_eq_place` — the normal form of a path is faithful if the path climbs at most once
  above its start.
-/

namespace Docmark

/-! ## Pieces between separators -/

section Pieces

variable {sep : Char}

lemma splitOn_ne_nil (cs : Text) : splitOn sep cs ≠ [] := by
  cases cs with
  | nil => simp [splitOn]
  | cons c cs =>
    simp only [splitOn]
    split
    · simp
    · split <;> simp

/-- The pieces on both sides of a separator. -/
lemma splitOn_append (as bs : Text) :
    splitOn sep (as ++ sep :: bs) = splitOn sep as ++ splitOn sep bs := by
  induction as with
  | nil => simp [splitOn]
  | cons c as ih =>
    simp only [List.cons_append, splitOn]
    by_cases hc : c = sep
    · rw [if_pos hc, if_pos hc, ih, List.cons_append]
    · rw [if_neg hc, if_neg hc, ih]
      cases h : splitOn sep as with
      | nil => exact absurd h (splitOn_ne_nil as)
      | cons w ws => rfl

lemma splitOn_of_notMem {cs : Text} (h : sep ∉ cs) : splitOn sep cs = [cs] := by
  induction cs with
  | nil => rfl
  | cons c cs ih =>
    rw [List.mem_cons, not_or] at h
    simp only [splitOn, ih h.2]
    rw [if_neg (Ne.symm h.1)]

lemma notMem_of_mem_splitOn {cs piece : Text} (h : piece ∈ splitOn sep cs) : sep ∉ piece := by
  induction cs generalizing piece with
  | nil =>
    rw [splitOn, List.mem_singleton] at h
    simp [h]
  | cons c cs ih =>
    simp only [splitOn] at h
    split at h
    next =>
      rcases List.mem_cons.1 h with rfl | h
      · simp
      · exact ih h
    next hc =>
      split at h
      next =>
        rw [List.mem_singleton.1 h]
        simpa using Ne.symm hc
      next w ws hw =>
        rcases List.mem_cons.1 h with rfl | h
        · have hnot : sep ∉ w := ih (by rw [hw]; exact List.mem_cons_self)
          simpa using ⟨Ne.symm hc, hnot⟩
        · exact ih (by rw [hw]; exact List.mem_cons_of_mem _ h)

/-- The characters of a piece are characters of the text. -/
lemma subset_of_mem_splitOn {cs piece : Text} (h : piece ∈ splitOn sep cs) : piece ⊆ cs := by
  induction cs generalizing piece with
  | nil =>
    rw [splitOn, List.mem_singleton] at h
    simp [h]
  | cons c cs ih =>
    simp only [splitOn] at h
    split at h
    next =>
      rcases List.mem_cons.1 h with rfl | h
      · simp
      · exact List.subset_cons_of_subset _ (ih h)
    next =>
      split at h
      next =>
        rw [List.mem_singleton.1 h]
        simp
      next w ws hw =>
        rcases List.mem_cons.1 h with rfl | h
        · have hsub : w ⊆ cs := ih (by rw [hw]; exact List.mem_cons_self)
          exact List.cons_subset_cons _ hsub
        · exact List.subset_cons_of_subset _ (ih (by rw [hw]; exact List.mem_cons_of_mem _ h))

lemma intercalate_cons_cons (a b : Text) (ps : List Text) :
    List.intercalate [sep] (a :: b :: ps) = a ++ sep :: List.intercalate [sep] (b :: ps) := by
  simp [List.intercalate]

/-- Pieces without the separator are found again. -/
lemma splitOn_intercalate {ps : List Text} (hne : ps ≠ []) (hps : ∀ p ∈ ps, sep ∉ p) :
    splitOn sep (List.intercalate [sep] ps) = ps := by
  induction ps with
  | nil => exact absurd rfl hne
  | cons a ps ih =>
    have ha : splitOn sep a = [a] := splitOn_of_notMem (hps a List.mem_cons_self)
    cases ps with
    | nil => simpa [List.intercalate] using ha
    | cons b ps =>
      rw [intercalate_cons_cons, splitOn_append, ha,
        ih (by simp) fun p hp => hps p (List.mem_cons_of_mem _ hp)]
      rfl

lemma intercalate_concat {ps : List Text} (hne : ps ≠ []) (a : Text) :
    List.intercalate [sep] (ps ++ [a]) = List.intercalate [sep] ps ++ sep :: a := by
  induction ps with
  | nil => exact absurd rfl hne
  | cons b ps ih =>
    cases ps with
    | nil => simp [List.intercalate]
    | cons c ps =>
      rw [List.cons_append, List.cons_append, intercalate_cons_cons, ← List.cons_append,
        ih (by simp), intercalate_cons_cons, List.append_assoc, List.cons_append]

/-- Joined pieces are written with the separator and the characters of the pieces. -/
lemma mem_intercalate {ps : List Text} {c : Char} (h : c ∈ List.intercalate [sep] ps) :
    c = sep ∨ ∃ p ∈ ps, c ∈ p := by
  induction ps with
  | nil => simp [List.intercalate] at h
  | cons a ps ih =>
    cases ps with
    | nil => exact .inr ⟨a, List.mem_cons_self, by simpa [List.intercalate] using h⟩
    | cons b ps =>
      rw [intercalate_cons_cons, List.mem_append, List.mem_cons] at h
      rcases h with h | rfl | h
      · exact .inr ⟨a, List.mem_cons_self, h⟩
      · exact .inl rfl
      · exact (ih h).imp_right fun ⟨p, hp, hc⟩ => ⟨p, List.mem_cons_of_mem _ hp, hc⟩

end Pieces

namespace Path

/-! ## Components -/

lemma isAbsolute_of_notMem {s : Text} (h : '/' ∉ s) : isAbsolute s = false := by
  cases s with
  | nil => rfl
  | cons c s =>
    rw [List.mem_cons, not_or] at h
    simpa [isAbsolute] using Ne.symm h.1

/-- A name as a component: a piece that is neither empty nor made of dots. -/
def IsName (s : Text) : Prop := s ≠ [] ∧ s ≠ ['.'] ∧ s ≠ ['.', '.'] ∧ '/' ∉ s

/-- A component that goes one step on from a directory. -/
inductive Component.IsStep : Component → Prop where
  | parent : IsStep .parent
  | name {s : Text} (hs : IsName s) : IsStep (.name s)

/-- The components that go on from a directory: those behind a root or a leading dot. -/
def steps (p : Path) : List Component := (splitOn '/' p).filterMap pieceComponent?

/-- What stands in front of the steps of a path: a root or a leading dot. -/
def lead (p : Path) : List Component :=
  if p.isAbsolute then [.root]
  else if (splitOn '/' p).head? = some ['.'] then [.current]
  else []

lemma components_eq (p : Path) : p.components = p.lead ++ p.steps := by
  simp only [components, lead, steps]
  split
  next h => exact absurd h (splitOn_ne_nil p)
  next first rest h =>
    rw [h]
    by_cases habs : p.isAbsolute = true
    · have hfirst : first = [] := by
        cases p with
        | nil => simp [isAbsolute] at habs
        | cons c p =>
          have hc : c = '/' := by simpa [isAbsolute] using habs
          simp only [splitOn, hc, if_true] at h
          exact (List.cons.inj h).1.symm
      simp [habs, hfirst, pieceComponent?]
    · by_cases hdot : first = ['.']
      · simp [habs, hdot, pieceComponent?]
      · cases hpiece : pieceComponent? first <;> simp [habs, hdot, hpiece]

lemma pieceComponent?_isStep {s : Text} {c : Component} (hs : '/' ∉ s)
    (h : pieceComponent? s = some c) : c.IsStep := by
  simp only [pieceComponent?] at h
  split at h
  next => cases h
  next hvoid =>
    rw [not_or] at hvoid
    split at h
    next =>
      cases h
      exact .parent
    next hdots =>
      cases h
      exact .name ⟨hvoid.1, hvoid.2, hdots, hs⟩

lemma steps_isStep (p : Path) : ∀ c ∈ p.steps, c.IsStep := by
  intro c hc
  obtain ⟨s, hs, hcomp⟩ := List.mem_filterMap.1 hc
  exact pieceComponent?_isStep (notMem_of_mem_splitOn hs) hcomp

/-- The names among the steps of a path are written with characters of the path. -/
lemma subset_of_name_mem_steps {p : Path} {s : Text} (h : Component.name s ∈ p.steps) : s ⊆ p := by
  obtain ⟨piece, hpiece, hcomp⟩ := List.mem_filterMap.1 h
  simp only [pieceComponent?] at hcomp
  split at hcomp
  next => cases hcomp
  next =>
    split at hcomp
    next => cases hcomp
    next =>
      cases hcomp
      exact subset_of_mem_splitOn hpiece

lemma pieceComponent?_text {c : Component} (hc : c.IsStep) : pieceComponent? c.text = some c := by
  cases hc with
  | parent => decide
  | name hs => simp [pieceComponent?, Component.text, hs.1, hs.2.1, hs.2.2.1]

lemma Component.IsStep.text_spec {c : Component} (hc : c.IsStep) :
    c.text ≠ [] ∧ c.text ≠ ['.'] ∧ '/' ∉ c.text := by
  cases hc with
  | parent => decide
  | name hs => exact ⟨hs.1, hs.2.1, hs.2.2.2⟩

/-- Some steps, written with slashes between them. -/
def written (cs : List Component) : Path := List.intercalate ['/'] (cs.map Component.text)

section Written

variable {cs : List Component} (hcs : ∀ c ∈ cs, c.IsStep)

include hcs

lemma splitOn_written (hne : cs ≠ []) : splitOn '/' (written cs) = cs.map Component.text := by
  refine splitOn_intercalate (by simpa using hne) ?_
  intro p hp
  obtain ⟨c, hc, rfl⟩ := List.mem_map.1 hp
  exact (hcs c hc).text_spec.2.2

/-- Steps that are written are read again. -/
lemma steps_written : (written cs).steps = cs := by
  by_cases hne : cs = []
  · rw [hne]
    rfl
  · rw [steps, splitOn_written hcs hne, List.filterMap_map]
    have hread : ∀ c ∈ cs, (pieceComponent? ∘ Component.text) c = some c :=
      fun c hc => pieceComponent?_text (hcs c hc)
    rw [List.filterMap_congr hread, List.filterMap_some]

lemma isAbsolute_written : (written cs).isAbsolute = false := by
  cases cs with
  | nil => rfl
  | cons c cs =>
    obtain ⟨hne, -, hslash⟩ := (hcs c List.mem_cons_self).text_spec
    cases htext : c.text with
    | nil => exact absurd htext hne
    | cons a as =>
      rw [htext, List.mem_cons, not_or] at hslash
      have hhead : (written (c :: cs)).head? = some a := by
        cases cs with
        | nil => simp [written, List.intercalate, htext]
        | cons d ds =>
          simp only [written, List.map_cons]
          rw [intercalate_cons_cons, htext]
          rfl
      rw [isAbsolute, hhead]
      simpa using Ne.symm hslash.1

lemma lead_written : (written cs).lead = [] := by
  rw [lead, isAbsolute_written hcs, if_neg Bool.false_ne_true, if_neg]
  by_cases hne : cs = []
  · rw [hne]
    decide
  · obtain ⟨c, cs', rfl⟩ := List.exists_cons_of_ne_nil hne
    rw [splitOn_written hcs hne]
    simpa using (hcs c List.mem_cons_self).text_spec.2.1

lemma components_written : (written cs).components = cs := by
  rw [components_eq, lead_written hcs, steps_written hcs, List.nil_append]

end Written

/-! ## Places -/

/-- The place that some components lead to. -/
def Place.walk (here : Place) (cs : List Component) : Place := cs.foldl Place.step here

@[simp] lemma Place.walk_nil (here : Place) : here.walk [] = here := rfl

@[simp] lemma Place.walk_cons (here : Place) (c : Component) (cs : List Component) :
    here.walk (c :: cs) = (here.step c).walk cs := rfl

lemma Place.walk_append (here : Place) (cs ds : List Component) :
    here.walk (cs ++ ds) = (here.walk cs).walk ds := by
  simp [Place.walk]

/-- The place that a path leads to. -/
def place (p : Path) : Place := Place.walk ⟨false, []⟩ p.components

lemma normalize_eq (p : Path) : p.normalize = p.place.path := rfl

/-- A path leads where its steps lead from the root or from the start. -/
lemma place_eq (p : Path) : p.place = Place.walk ⟨p.isAbsolute, []⟩ p.steps := by
  rw [place, components_eq, Place.walk_append, lead]
  by_cases habs : p.isAbsolute = true
  · rw [if_pos habs, habs]
    rfl
  · rw [if_neg habs, Bool.eq_false_iff.2 habs]
    split <;> rfl

/-- A place in normal form: names, and at most one step to the parent before them. -/
structure Place.IsNormal (here : Place) : Prop where
  split : ∃ names up, here.trail = names ++ up ∧ (∀ s ∈ names, IsName s) ∧
    (up = [] ∨ up = [['.', '.']])

lemma Place.isNormal_start (absolute : Bool) : Place.IsNormal ⟨absolute, []⟩ :=
  ⟨[], [], rfl, nofun, .inl rfl⟩

lemma Place.IsNormal.step {here : Place} (h : here.IsNormal) {c : Component} (hc : c.IsStep) :
    (here.step c).IsNormal := by
  obtain ⟨names, up, htrail, hnames, hup⟩ := h
  obtain ⟨absolute, trail⟩ := here
  obtain rfl : trail = names ++ up := htrail
  cases hc with
  | @name s hs => exact ⟨s :: names, up, rfl, by simpa using ⟨hs, hnames⟩, hup⟩
  | parent =>
    cases names with
    | cons n names =>
      exact ⟨names, up, rfl, fun s hs => hnames s (List.mem_cons_of_mem _ hs), hup⟩
    | nil =>
      rcases hup with rfl | rfl
      · exact ⟨[], [['.', '.']], rfl, nofun, .inr rfl⟩
      · exact ⟨[], [], rfl, nofun, .inl rfl⟩

lemma Place.IsNormal.walk {here : Place} (h : here.IsNormal) {cs : List Component}
    (hcs : ∀ c ∈ cs, c.IsStep) : (here.walk cs).IsNormal := by
  induction cs generalizing here with
  | nil => exact h
  | cons c cs ih =>
    exact ih (h.step (hcs c List.mem_cons_self)) fun d hd => hcs d (List.mem_cons_of_mem _ hd)

lemma place_isNormal (p : Path) : p.place.IsNormal := by
  rw [place_eq]
  exact (Place.isNormal_start _).walk p.steps_isStep

/-- The step that a name or a pair of dots in a trail stands for. -/
def trailStep (s : Text) : Component := if s = ['.', '.'] then .parent else .name s

/-- The steps that lead to a place from the root or from the start. -/
def Place.steps (here : Place) : List Component := here.trail.reverse.map trailStep

lemma trailStep_text (s : Text) : (trailStep s).text = s := by
  unfold trailStep
  split
  next h => rw [h]; rfl
  next => rfl

lemma Place.IsNormal.isStep {here : Place} (h : here.IsNormal) : ∀ c ∈ here.steps, c.IsStep := by
  obtain ⟨names, up, htrail, hnames, hup⟩ := h
  intro c hc
  obtain ⟨s, hs, rfl⟩ := List.mem_map.1 hc
  rw [List.mem_reverse, htrail, List.mem_append] at hs
  rcases hs with hs | hs
  · rw [trailStep, if_neg (hnames s hs).2.2.1]
    exact .name (hnames s hs)
  · rcases hup with rfl | rfl
    · cases hs
    · rw [List.mem_singleton.1 hs]
      exact .parent

/-- The steps to a place lead there. -/
lemma Place.IsNormal.walk_steps {here : Place} (h : here.IsNormal) :
    Place.walk ⟨here.absolute, []⟩ here.steps = here := by
  obtain ⟨names, up, htrail, hnames, hup⟩ := h
  obtain ⟨absolute, trail⟩ := here
  obtain rfl : trail = names ++ up := htrail
  induction names with
  | nil => rcases hup with rfl | rfl <;> rfl
  | cons n names ih =>
    have hrest := ih fun s hs => hnames s (List.mem_cons_of_mem _ hs)
    simp only [Place.steps] at hrest ⊢
    rw [List.cons_append, List.reverse_cons, List.map_append, Place.walk_append, hrest,
      List.map_singleton, trailStep, if_neg (hnames n List.mem_cons_self).2.2.1]
    rfl

lemma Place.path_eq (here : Place) :
    here.path = (if here.absolute then ['/'] else []) ++ written here.steps := by
  have htext : here.steps.map Component.text = here.trail.reverse := by
    rw [Place.steps, List.map_map]
    conv_rhs => rw [← List.map_id here.trail.reverse]
    exact List.map_congr_left fun s _ => trailStep_text s
  rw [Place.path, written, htext]

section Normal

variable {here : Place} (h : here.IsNormal)

include h

lemma Place.IsNormal.isAbsolute_path : here.path.isAbsolute = here.absolute := by
  rw [Place.path_eq]
  cases here.absolute with
  | true => rfl
  | false => exact isAbsolute_written h.isStep

lemma Place.IsNormal.steps_path : here.path.steps = here.steps := by
  rw [Place.path_eq]
  cases here.absolute with
  | true =>
    have hroot : splitOn '/' (['/'] ++ written here.steps) =
        [] :: splitOn '/' (written here.steps) :=
      splitOn_append [] _
    rw [if_pos rfl, Path.steps, hroot, List.filterMap_cons]
    exact steps_written h.isStep
  | false => exact steps_written h.isStep

/-- **Normal forms are read back.**  A place in normal form is the place of its own path. -/
lemma Place.IsNormal.place_path : here.path.place = here := by
  rw [place_eq, h.isAbsolute_path, h.steps_path, h.walk_steps]

lemma Place.IsNormal.components_path :
    here.path.components = (if here.absolute then [.root] else []) ++ here.steps := by
  rw [components_eq, h.steps_path, lead, h.isAbsolute_path]
  by_cases habs : here.absolute = true
  · rw [if_pos habs, if_pos habs]
  · rw [if_neg habs, if_neg habs, Place.path_eq, if_neg habs, List.nil_append]
    have hlead := lead_written h.isStep
    rw [lead, isAbsolute_written h.isStep, if_neg Bool.false_ne_true] at hlead
    rw [hlead]

end Normal

lemma place_normalize (p : Path) : p.normalize.place = p.place := by
  rw [normalize_eq, p.place_isNormal.place_path]

lemma isAbsolute_normalize (p : Path) : p.normalize.isAbsolute = p.place.absolute := by
  rw [normalize_eq, p.place_isNormal.isAbsolute_path]

lemma place_absolute (p : Path) : p.place.absolute = p.isAbsolute := by
  have hwalk (cs : List Component) (hcs : ∀ c ∈ cs, c.IsStep) (here : Place) :
      (here.walk cs).absolute = here.absolute := by
    induction cs generalizing here with
    | nil => rfl
    | cons c cs ih =>
      rw [Place.walk_cons, ih fun d hd => hcs d (List.mem_cons_of_mem _ hd)]
      cases hcs c List.mem_cons_self with
      | parent =>
        obtain ⟨absolute, trail⟩ := here
        cases trail <;> rfl
      | name => rfl
  rw [place_eq, hwalk _ p.steps_isStep]

lemma normalize_eq_iff {p q : Path} : p.normalize = q.normalize ↔ p.place = q.place := by
  constructor
  · intro h
    rw [← place_normalize p, h, place_normalize]
  · intro h
    rw [normalize_eq, h, ← normalize_eq]

/-! ## Joining -/

/-- What stands in front of a relative path that is joined to a directory. -/
def opening (p : Path) : Text := if p = [] ∨ p.getLast? = some '/' then p else p ++ ['/']

lemma opening_eq (p : Path) :
    p.opening = [] ∧ p = [] ∨ ∃ b, p.opening = b ++ ['/'] ∧ (p = b ∨ p = b ++ ['/']) := by
  rw [opening]
  split
  next hend =>
    by_cases hp : p = []
    · exact .inl ⟨hp, hp⟩
    · obtain ⟨b, hb⟩ := List.getLast?_eq_some_iff.1 (hend.resolve_left hp)
      exact .inr ⟨b, hb, .inr hb⟩
  next => exact .inr ⟨p, rfl, .inl rfl⟩

section Join

variable (p : Path) {q : Path} (hq : q.isAbsolute = false)

include hq

lemma join_eq : p.join q = p.opening ++ q := by
  rw [join, push, opening, if_neg (by simp [hq])]
  split
  next => rfl
  next => rw [List.append_assoc, List.singleton_append]

lemma isAbsolute_join : (p.join q).isAbsolute = p.isAbsolute := by
  rw [join_eq p hq]
  rcases p.opening_eq with ⟨hopening, rfl⟩ | ⟨b, hopening, hp⟩
  · rw [hopening, List.nil_append, hq]
    rfl
  · rw [hopening]
    rcases hp with rfl | rfl
    · -- the path is not empty, or there would be nothing in front
      cases p with
      | nil => cases hopening
      | cons c p => rfl
    · cases b <;> rfl

lemma steps_join : (p.join q).steps = p.steps ++ q.steps := by
  have hslash (b q : Path) : Path.steps (b ++ '/' :: q) = b.steps ++ q.steps := by
    rw [steps, splitOn_append, List.filterMap_append]
    rfl
  rw [join_eq p hq]
  rcases p.opening_eq with ⟨hopening, rfl⟩ | ⟨b, hopening, hp⟩
  · rw [hopening]
    rfl
  · rw [hopening, List.append_assoc, List.singleton_append, hslash]
    rcases hp with rfl | rfl
    · rfl
    · rw [hslash b []]
      exact congrArg (· ++ q.steps) (List.append_nil _).symm

/-- **Joining goes on.**  The place of a relative path, as seen from a directory, is where its steps
lead from the place of the directory. -/
theorem place_join : (p.join q).place = p.place.walk q.steps := by
  rw [place_eq, isAbsolute_join p hq, steps_join p hq, Place.walk_append, ← place_eq]

end Join

/-- What a path leads to depends on the place of the directory alone. -/
lemma place_join_congr {p p' : Path} (h : p.place = p'.place) (q : Path) :
    (p.join q).place = (p'.join q).place := by
  by_cases hq : q.isAbsolute = true
  · rw [join, join, push, push, if_pos hq, if_pos hq]
  · rw [place_join p (by simpa using hq), place_join p' (by simpa using hq), h]

/-! ## Names -/

lemma slashed_written {cs : List Component} (hcs : ∀ c ∈ cs, c.IsStep) :
    slashed (written cs) = written cs := by
  rw [slashed, components_written hcs, written]

/-- The names on the way to a place come from the start, from the steps taken, or stand for a step
to the parent. -/
lemma Place.mem_trail_walk {here : Place} {cs : List Component} (hcs : ∀ c ∈ cs, c.IsStep)
    {s : Text} (h : s ∈ (here.walk cs).trail) :
    s ∈ here.trail ∨ .name s ∈ cs ∨ s = ['.', '.'] := by
  induction cs generalizing here with
  | nil => exact .inl h
  | cons c cs ih =>
    rcases ih (fun d hd => hcs d (List.mem_cons_of_mem _ hd)) h with hstep | hmem | hdots
    · cases hcs c List.mem_cons_self with
      | parent =>
        obtain ⟨absolute, trail⟩ := here
        cases trail with
        | nil => exact .inr (.inr (List.mem_singleton.1 hstep))
        | cons top rest => exact .inl (List.mem_cons_of_mem _ hstep)
      | name hs =>
        rcases List.mem_cons.1 hstep with rfl | hstep
        · exact .inr (.inl List.mem_cons_self)
        · exact .inl hstep
    · exact .inr (.inl (List.mem_cons_of_mem _ hmem))
    · exact .inr (.inr hdots)

/-- The names on the way to a place are written with dots and characters of the path. -/
lemma mem_trail_place {p : Path} {s : Text} (h : s ∈ p.place.trail) : s ⊆ p ∨ s = ['.', '.'] := by
  rw [place_eq] at h
  rcases Place.mem_trail_walk p.steps_isStep h with hnone | hname | hdots
  · cases hnone
  · exact .inl (subset_of_name_mem_steps hname)
  · exact .inr hdots

/-- A place in normal form with a slash between all of its components is still the same. -/
lemma Place.IsNormal.place_slashed {here : Place} (h : here.IsNormal) :
    place here.path.slashed = here := by
  have hslashed := h.components_path
  by_cases habs : here.absolute = true
  · have hsteps : Path.steps here.path.slashed = here.steps ∧
        isAbsolute here.path.slashed = true := by
      rw [if_pos habs] at hslashed
      rw [slashed, hslashed]
      cases hcs : here.steps with
      | nil => exact ⟨rfl, rfl⟩
      | cons c cs =>
        have hwritten : List.intercalate ['/'] (([Component.root] ++ c :: cs).map Component.text) =
            [] ++ '/' :: ([] ++ '/' :: written (c :: cs)) := by
          rw [written]
          exact intercalate_cons_cons _ _ _
        refine ⟨?_, by rw [hwritten]; rfl⟩
        rw [hwritten, Path.steps, splitOn_append, splitOn_append, ← hcs]
        exact steps_written h.isStep
    rw [place_eq, hsteps.1, hsteps.2, ← habs, h.walk_steps]
  · rw [if_neg habs] at hslashed
    have hpath : here.path = written here.steps := by
      rw [Place.path_eq, if_neg habs, List.nil_append]
    rw [hpath, slashed_written h.isStep, ← hpath, h.place_path]

/-- The path of a place is written with slashes and with characters of the names on the way. -/
lemma Place.IsNormal.mem_slashed {here : Place} (h : here.IsNormal) {c : Char}
    (hc : c ∈ here.path.slashed) : c = '/' ∨ ∃ s ∈ here.trail, c ∈ s := by
  have hstep {d : Component} (hd : d ∈ here.steps) (hc : c ∈ d.text) : ∃ s ∈ here.trail, c ∈ s := by
    obtain ⟨s, hs, rfl⟩ := List.mem_map.1 hd
    rw [trailStep_text] at hc
    exact ⟨s, List.mem_reverse.1 hs, hc⟩
  rw [slashed, h.components_path] at hc
  rcases mem_intercalate hc with rfl | ⟨text, htext, hc⟩
  · exact .inl rfl
  · obtain ⟨d, hd, rfl⟩ := List.mem_map.1 htext
    rcases List.mem_append.1 hd with hroot | hd
    · split at hroot
      · rw [List.mem_singleton.1 hroot] at hc
        exact .inl (List.mem_singleton.1 hc)
      · cases hroot
    · exact .inr (hstep hd hc)

/-! ## Relative paths -/

/-- Steps each of which a step to the parent takes back. -/
def Place.Advances : Place → List Component → Prop
  | _, [] => True
  | here, c :: cs => (here.step c).step .parent = here ∧ (here.step c).Advances cs

lemma Place.advances_append {here : Place} {cs ds : List Component} :
    here.Advances (cs ++ ds) ↔ here.Advances cs ∧ (here.walk cs).Advances ds := by
  induction cs generalizing here with
  | nil => simp [Place.Advances]
  | cons c cs ih => simp [Place.Advances, ih, and_assoc]

lemma Place.walk_back {here : Place} {cs : List Component} (h : here.Advances cs) :
    (here.walk cs).walk (List.replicate cs.length .parent) = here := by
  induction cs generalizing here with
  | nil => rfl
  | cons c cs ih =>
    rw [List.length_cons, List.replicate_succ', Place.walk_append, Place.walk_cons here, ih h.2]
    exact h.1

/-- The steps to a place in normal form lead on and on. -/
lemma Place.IsNormal.advances {here : Place} (h : here.IsNormal) :
    Place.Advances ⟨here.absolute, []⟩ here.steps := by
  obtain ⟨names, up, htrail, hnames, hup⟩ := h
  obtain ⟨absolute, trail⟩ := here
  obtain rfl : trail = names ++ up := htrail
  induction names with
  | nil =>
    rcases hup with rfl | rfl
    · trivial
    · exact ⟨rfl, trivial⟩
  | cons n names ih =>
    have hrest := ih fun s hs => hnames s (List.mem_cons_of_mem _ hs)
    simp only [Place.steps] at hrest ⊢
    rw [List.cons_append, List.reverse_cons, List.map_append, Place.advances_append]
    refine ⟨hrest, ?_⟩
    rw [List.map_singleton, trailStep, if_neg (hnames n List.mem_cons_self).2.2.1]
    exact ⟨rfl, trivial⟩

lemma stepsFrom_nil (apart : Bool) (base : List Component) :
    stepsFrom apart [] base = some (List.replicate base.length .parent) := by
  induction base generalizing apart with
  | nil => rfl
  | cons b base ih =>
    rw [stepsFrom, ih]
    rfl

/-- One step of the way from a directory to a path: a common component is passed over; where the two
go apart, the way leads back over all that is left of the directory and on along the path. -/
lemma stepsFrom_cons {a b : Component} {path base cs : List Component} (hb : b ≠ .current)
    (h : stepsFrom false (a :: path) (b :: base) = some cs) :
    (a = b ∧ stepsFrom false path base = some cs) ∨
      cs = List.replicate (base.length + 1) .parent ++ a :: path := by
  rw [stepsFrom] at h
  split at h
  next hab => exact .inl ⟨by simpa using hab, h⟩
  next =>
    -- the directory does not start with a dot here
    split at h
    next => cases h
    next =>
      refine .inr ?_
      rw [← Option.some.inj h, List.map_const', List.replicate_succ]

/-- **There and back.**  The components that lead from a directory to a path, taken from the place
of the directory, lead to the place of the path. -/
theorem walk_of_stepsFrom {here : Place} {path base cs : List Component}
    (hbase : here.Advances base) (hcurrent : ∀ b ∈ base, b ≠ .current)
    (h : stepsFrom false path base = some cs) : (here.walk base).walk cs = here.walk path := by
  induction base generalizing here path cs with
  | nil =>
    rw [stepsFrom.eq_1] at h
    cases h
    rfl
  | cons b base ih =>
    cases path with
    | nil =>
      rw [stepsFrom_nil] at h
      cases h
      exact Place.walk_back hbase
    | cons a path =>
      rcases stepsFrom_cons (hcurrent b List.mem_cons_self) h with ⟨rfl, hrest⟩ | rfl
      · exact ih hbase.2 (fun c hc => hcurrent c (List.mem_cons_of_mem _ hc)) hrest
      · have hback := Place.walk_back hbase
        rw [List.length_cons] at hback
        rw [Place.walk_append, hback]

/-- Every component that leads from a directory to a path is a step to the parent or one of the
path's own. -/
lemma mem_of_stepsFrom {path base cs : List Component} (hcurrent : ∀ b ∈ base, b ≠ .current)
    (h : stepsFrom false path base = some cs) : ∀ c ∈ cs, c = .parent ∨ c ∈ path := by
  induction base generalizing path cs with
  | nil =>
    rw [stepsFrom.eq_1] at h
    cases h
    exact fun c hc => .inr hc
  | cons b base ih =>
    cases path with
    | nil =>
      rw [stepsFrom_nil] at h
      cases h
      exact fun c hc => .inl (List.eq_of_mem_replicate hc)
    | cons a path =>
      rcases stepsFrom_cons (hcurrent b List.mem_cons_self) h with ⟨-, h⟩ | rfl
      · intro c hc
        exact (ih (fun d hd => hcurrent d (List.mem_cons_of_mem _ hd)) h c hc).imp_right
          (List.mem_cons_of_mem _)
      · intro c hc
        rcases List.mem_append.1 hc with hc | hc
        · exact .inl (List.eq_of_mem_replicate hc)
        · exact .inr hc

lemma ofComponents_eq_written {cs : List Component} (hcs : ∀ c ∈ cs, c.IsStep) :
    ofComponents cs = written cs := by
  induction cs using List.reverseRecOn with
  | nil => rfl
  | append_singleton cs c ih =>
    have hcs' : ∀ d ∈ cs, d.IsStep := fun d hd => hcs d (List.mem_append_left _ hd)
    obtain ⟨-, -, hslash⟩ := (hcs c (by simp)).text_spec
    have habs : isAbsolute c.text = false := isAbsolute_of_notMem hslash
    rw [ofComponents, List.foldl_append, List.foldl_cons, List.foldl_nil]
    rw [ofComponents] at ih
    rw [ih hcs', push, if_neg (by simp [habs])]
    by_cases hempty : cs = []
    · simp [hempty, written, List.intercalate]
    · have hends : ¬ (written cs = [] ∨ (written cs).getLast? = some '/') := by
        have hsplit := splitOn_written hcs' hempty
        rintro (hnil | hlast)
        · have hmem : [] ∈ cs.map Component.text := by
            rw [← hsplit, hnil]
            exact List.mem_cons_self
          obtain ⟨d, hd, htext⟩ := List.mem_map.1 hmem
          exact (hcs' d hd).text_spec.1 htext
        · obtain ⟨b, hb⟩ : ∃ b, written cs = b ++ ['/'] := by
            obtain ⟨b, hb⟩ := List.getLast?_eq_some_iff.1 hlast
            exact ⟨b, hb⟩
          have hmem : [] ∈ cs.map Component.text := by
            rw [← hsplit, hb, splitOn_append]
            exact List.mem_append_right _ List.mem_cons_self
          obtain ⟨d, hd, htext⟩ := List.mem_map.1 hmem
          exact (hcs' d hd).text_spec.1 htext
      rw [if_neg hends, written, written, List.map_append, List.map_singleton,
        intercalate_concat (by simpa using hempty)]

/-- **Relative paths lead back.**  Where two paths in normal form are both absolute or both
relative, the one as seen from the other is made of steps that lead from the place of the other to
its own; their names are names of the one. -/
theorem relativeTo?_place {p base q : Path} (habs : p.place.absolute = base.place.absolute)
    (h : p.normalize.relativeTo? base.normalize = some q) :
    ∃ cs : List Component, (∀ c ∈ cs, c.IsStep) ∧ q = written cs ∧ base.place.walk cs = p.place ∧
      ∀ s, .name s ∈ cs → s ∈ p.place.trail := by
  have hp := p.place_isNormal
  have hbase := base.place_isNormal
  have hcurrent : ∀ b ∈ base.place.steps, b ≠ .current := by
    intro b hb
    rintro rfl
    cases hbase.isStep _ hb
  rw [relativeTo?, isAbsolute_normalize, isAbsolute_normalize, if_pos habs, normalize_eq,
    normalize_eq, hp.components_path, hbase.components_path, habs] at h
  obtain ⟨cs, hcs, rfl⟩ := Option.map_eq_some_iff.1 h
  -- a common root is passed over
  have hsteps : stepsFrom false p.place.steps base.place.steps = some cs := by
    by_cases hroot : base.place.absolute = true
    · rw [if_pos hroot] at hcs
      simpa [stepsFrom] using hcs
    · rw [if_neg hroot] at hcs
      exact hcs
  have hisStep : ∀ c ∈ cs, c.IsStep := by
    intro c hc
    rcases mem_of_stepsFrom hcurrent hsteps c hc with rfl | hc
    · exact .parent
    · exact hp.isStep c hc
  refine ⟨cs, hisStep, ofComponents_eq_written hisStep, ?_, ?_⟩
  · have hback := walk_of_stepsFrom hbase.advances hcurrent hsteps
    rwa [hbase.walk_steps, ← habs, hp.walk_steps] at hback
  · intro s hs
    rcases mem_of_stepsFrom hcurrent hsteps _ hs with hparent | hmem
    · cases hparent
    · obtain ⟨s', hs', hstep⟩ := List.mem_map.1 hmem
      unfold trailStep at hstep
      split at hstep
      · cases hstep
      · cases hstep
        exact List.mem_reverse.1 hs'

/-- **Relative paths lead there.**  A path as seen from a directory, with a slash between its
components, leads to the place of the path, and is written with slashes, dots and characters of the
names on the way to it. -/
theorem relativeTo?_slashed {p base q : Path}
    (h : p.normalize.relativeTo? base.normalize = some q) :
    (base.join q.slashed).place = p.place ∧
      ∀ c ∈ q.slashed, c = '/' ∨ c = '.' ∨ ∃ s ∈ p.place.trail, c ∈ s := by
  by_cases habs : p.place.absolute = base.place.absolute
  · obtain ⟨cs, hcs, rfl, hwalk, hnames⟩ := relativeTo?_place habs h
    rw [slashed_written hcs]
    refine ⟨?_, fun c hc => ?_⟩
    · rw [place_join base (isAbsolute_written hcs), steps_written hcs, hwalk]
    · rcases mem_intercalate hc with rfl | ⟨text, htext, hc⟩
      · exact .inl rfl
      · obtain ⟨d, hd, rfl⟩ := List.mem_map.1 htext
        cases hcs d hd with
        | parent => exact .inr (.inl (by simpa [Component.text] using hc))
        | name => exact .inr (.inr ⟨_, hnames _ hd, hc⟩)
  · -- only an absolute path can be seen from a directory of the other kind
    rw [relativeTo?, isAbsolute_normalize, isAbsolute_normalize, if_neg habs] at h
    split at h
    next hroot =>
      cases h
      rw [normalize_eq]
      have hplace := p.place_isNormal.place_slashed
      have hslashed : isAbsolute p.place.path.slashed = true := by
        have hroot' := congrArg Place.absolute hplace
        rwa [hroot, place_absolute] at hroot'
      refine ⟨?_, fun c hc => (p.place_isNormal.mem_slashed hc).imp_right .inr⟩
      rw [join, push, if_pos hslashed, hplace]
    next => cases h

/-! ## Climbing -/

/-- The place reached by one more step, where steps to the parent add up above the start and lead
nowhere from the root. -/
def Place.climb (here : Place) (c : Component) : Place :=
  match c, here.trail with
  | .parent, [] => if here.absolute then here else ⟨false, [['.', '.']]⟩
  | .parent, top :: rest =>
    if top = ['.', '.'] then ⟨here.absolute, ['.', '.'] :: top :: rest⟩
    else ⟨here.absolute, rest⟩
  | c, _ => here.step c

/-- The place to which a path leads, step by step. -/
def resolve (p : Path) : Place := p.components.foldl Place.climb ⟨false, []⟩

/-- Steps of which none leads to the parent from above the start or from the root. -/
def Place.IsSteady : Place → List Component → Prop
  | _, [] => True
  | here, c :: cs =>
    (c = .parent → here.trail.head? ≠ some ['.', '.'] ∧ (here.trail = [] → here.absolute = false)) ∧
      (here.step c).IsSteady cs

/-- A path that never climbs from above its start or from the root. -/
def IsSteady (p : Path) : Prop := Place.IsSteady ⟨false, []⟩ p.components

/-- **Normal forms are faithful.**  The normal form of a path that climbs at most once above its
start is that of the place to which the path leads. -/
theorem resolve_eq_place {p : Path} (h : p.IsSteady) : p.resolve = p.place := by
  have hwalk (cs : List Component) : ∀ here : Place, here.IsSteady cs →
      cs.foldl Place.climb here = here.walk cs := by
    induction cs with
    | nil => exact fun _ _ => rfl
    | cons c cs ih =>
      rintro here ⟨hparent, hrest⟩
      have hstep : here.climb c = here.step c := by
        obtain ⟨absolute, trail⟩ := here
        cases c with
        | parent =>
          obtain ⟨htop, hroot⟩ := hparent rfl
          cases trail with
          | nil =>
            obtain rfl : absolute = false := hroot rfl
            rfl
          | cons top rest =>
            have hne : top ≠ ['.', '.'] := fun h => htop (congrArg some h)
            exact if_neg hne
        | _ => rfl
      rw [List.foldl_cons, hstep, ih _ hrest]
      rfl
  exact hwalk _ _ h

end Path

end Docmark
