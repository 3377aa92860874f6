import Mathlib
import Docmark.Project.Scan
import Docmark.Proofs.FileTree.Listing
import Docmark.Proofs.Outcome
import Docmark.Proofs.Path.Descent

/-!
# The tour of a walk

A walk over a project goes on from a directory by names, so that everything it comes to has a way of
names from where the walk starts.  What a walk would come to if it looked at no place twice is its
tour (`Scan.tour`), a list of stops that no record of entered places has a part in.  The walk itself
goes through the tour and keeps the record (`Scan.walk_eq_foldlM`): it comes to its end if the
places of the directories on the tour are all different, and fails at the first that was there
before.  Fuel for more than the directories of the tree changes nothing.

## Main results

* `Scan.walk_eq_foldlM` — a walk goes through its tour, stop by stop.
* `Scan.walk_fuel` — more fuel makes no difference.
* `Scan.foldlM_record_ok`, `Scan.exists_of_foldlM_record_error` — when the record of a tour
  succeeds, and where it fails.
* `Scan.mem_tour_enter`, `Scan.mem_tour_take` — the stops of a tour, by the ways that lead there.
* `Scan.tour_relisted` — in another order, a tour has the same stops.
-/

namespace Docmark

/-! ## Folds that keep something -/

section Fold

variable {α β ε : Type} {I : β → Prop} {f g : β → α → Except ε β}

/-- Folds whose steps agree where an invariant holds agree. -/
lemma foldlM_congr_of {as : List α} (hkeep : ∀ a ∈ as, ∀ b b', I b → g b a = .ok b' → I b')
    (heq : ∀ a ∈ as, ∀ b, I b → f b a = g b a) {b : β} (hb : I b) :
    as.foldlM f b = as.foldlM g b := by
  induction as generalizing b with
  | nil => rfl
  | cons a as ih =>
    rw [List.foldlM_cons, List.foldlM_cons, heq a List.mem_cons_self b hb]
    cases hstep : g b a with
    | error e => rfl
    | ok b' =>
      exact ih (fun a' ha' => hkeep a' (List.mem_cons_of_mem _ ha'))
        (fun a' ha' => heq a' (List.mem_cons_of_mem _ ha')) (hkeep a List.mem_cons_self b b' hb hstep)

/-- A fold over the parts of a list is one over the parts, one after the other. -/
lemma foldlM_flatMap {γ : Type} (as : List γ) (parts : γ → List α) (b : β) :
    (as.flatMap parts).foldlM f b = as.foldlM (fun b a => (parts a).foldlM f b) b := by
  induction as generalizing b with
  | nil => rfl
  | cons a as ih =>
    rw [List.flatMap_cons, List.foldlM_append, List.foldlM_cons]
    exact congrArg _ (funext ih)

end Fold

namespace Scan

variable (s : Scan) (t : FileTree)

/-! ## Steps of a walk -/

/-- Whether a walk goes on from a directory into a directory that is listed in it. -/
def goesInto (dir : Path) (isRoot : Bool) (name : Text) : Bool :=
  !isSkippedName name && !s.leavesOut (dir.join name) true && t.isDir (dir.join name) &&
    (isRoot || (Config.find? t (dir.join name)).isNone)

/-- Whether a walk takes a file that is listed in a directory. -/
def picks (dir : Path) (name : Text) : Bool :=
  !isSkippedName name && !s.leavesOut (dir.join name) false && !t.isDir (dir.join name) &&
    s.takes t (dir.join name)

/-- What a walk does with a name that is listed in a directory, given how it goes on below. -/
def visit (goOn : Path → Found → Except Fault Found) (dir : Path) (isRoot : Bool) (found : Found)
    (name : Text) : Except Fault Found :=
  if s.goesInto t dir isRoot name then goOn (dir.join name) found
  else if s.picks t dir name then .ok (dir.join name :: found.1, found.2)
  else .ok found

variable {s t}

lemma walk_succ (fuel : Nat) (dir : Path) (isRoot : Bool) (found : Found) :
    s.walk t (fuel + 1) dir isRoot found = match t.locate dir with
      | .error _ => .ok found
      | .ok place =>
        if t.isDir dir then
          if place ∈ found.2 then .error (.symlinkCycle dir)
          else (t.names place).foldlM
            (s.visit t (fun p => s.walk t fuel p false) dir isRoot) (found.1, place :: found.2)
        else .ok found := by
  rw [walk]
  cases t.locate dir with
  | error => rfl
  | ok place =>
    dsimp only
    by_cases hdir : t.isDir dir = true
    · simp only [hdir, Bool.not_true, Bool.false_eq_true, if_false, if_true,
        List.contains_iff_mem]
      by_cases hentered : place ∈ found.2
      · rw [if_pos hentered, if_pos hentered]
        rfl
      · rw [if_neg hentered, if_neg hentered]
        congr 1
        funext found name
        -- the same tests, one after the other
        simp only [visit, goesInto, picks]
        by_cases hskip : isSkippedName name = true
        · simp [hskip, pure, Except.pure]
        by_cases hsub : t.isDir (dir.join name) = true
        · by_cases hout : s.leavesOut (dir.join name) true = true
          · simp [hsub, hskip, hout, pure, Except.pure]
          · cases isRoot <;> by_cases hconfig : (Config.find? t (dir.join name)).isSome = true <;>
              simp [hsub, hskip, hout, hconfig, ← Option.not_isSome, pure, Except.pure]
        · by_cases hout : s.leavesOut (dir.join name) false = true <;>
            simp [hsub, hskip, hout, pure, Except.pure]
    · simp [hdir]
      rfl

/-! ## Tours -/

/-- Something that a walk comes to, by the names on the way from where it starts. -/
inductive Stop where
  /-- A directory that is entered, and its place. -/
  | enter (way : List Text) (place : Trail)
  /-- A file of a directory that is taken. -/
  | take (way : List Text) (name : Text)

namespace Stop

/-- The stop as seen from the directory above. -/
def behind (name : Text) : Stop → Stop
  | enter way place => enter (name :: way) place
  | take way file => take (name :: way) file

/-- The names on the way, and the one of the file. -/
def trail : Stop → List Text
  | enter way _ => way
  | take way name => way ++ [name]

/-- The place of a directory that is entered. -/
def place? : Stop → Option Trail
  | enter _ place => some place
  | take _ _ => none

/-- The path of a file that is taken on a walk from a directory. -/
def file? (dir : Path) : Stop → Option Path
  | enter _ _ => none
  | take way name => some ((dir.descend way).join name)

lemma behind_injective (name : Text) : Function.Injective (behind name) := by
  rintro (⟨way, place⟩ | ⟨way, file⟩) (⟨way', place'⟩ | ⟨way', file'⟩) h <;>
    simp_all [behind]

lemma head?_trail_behind (name : Text) (x : Stop) : (x.behind name).trail.head? = some name := by
  cases x <;> rfl

end Stop

variable (s t) in
/-- What a walk comes to, in order, if it takes no notice of places that it has been to. -/
def tour : Nat → Path → Bool → List Stop
  | 0, _, _ => []
  | fuel + 1, dir, isRoot =>
    match t.locate dir with
    | .error _ => []
    | .ok place =>
      if t.isDir dir then
        .enter [] place :: (t.names place).flatMap fun name =>
          if s.goesInto t dir isRoot name then (tour fuel (dir.join name) false).map (.behind name)
          else if s.picks t dir name then [.take [] name]
          else []
      else []

/-- Keeps the record of a walk from a directory at one more stop. -/
def record (dir : Path) (found : Found) : Stop → Except Fault Found
  | .enter way place =>
    if place ∈ found.2 then .error (.symlinkCycle (dir.descend way))
    else .ok (found.1, place :: found.2)
  | .take way name => .ok ((dir.descend way).join name :: found.1, found.2)

lemma record_behind (dir : Path) (name : Text) (found : Found) (x : Stop) :
    record dir found (x.behind name) = record (dir.join name) found x := by
  cases x <;> rfl

/-! ## Records -/

/-- The places on record are different directories. -/
structure IsSound (t : FileTree) (found : Found) : Prop where
  nodup : found.2.Nodup
  isDirectory : ∀ place ∈ found.2, t.node? place = some .directory

lemma isSound_start : IsSound t ([], []) := ⟨List.nodup_nil, by simp⟩

lemma IsSound.length_le {found : Found} (h : IsSound t found) : found.2.length ≤ t.countDirs :=
  FileTree.length_le_countDirs h.nodup h.isDirectory

lemma IsSound.enter {found : Found} (h : IsSound t found) {place : Trail}
    (hdir : t.node? place = some .directory) (hnew : place ∉ found.2) :
    IsSound t (found.1, place :: found.2) where
  nodup := List.nodup_cons.2 ⟨hnew, h.nodup⟩
  isDirectory := List.forall_mem_cons.2 ⟨hdir, h.isDirectory⟩

lemma node?_of_isDir {dir : Path} {place : Trail} (hplace : t.locate dir = .ok place)
    (hdir : t.isDir dir = true) : t.node? place = some .directory := by
  simp only [FileTree.isDir, FileTree.at?, hplace] at hdir
  split at hdir
  next h => exact h
  next => cases hdir

/-- Each stop of a tour, by what leads there. -/
lemma mem_tour_succ {fuel : Nat} {dir : Path} {isRoot : Bool} {x : Stop} :
    x ∈ s.tour t (fuel + 1) dir isRoot ↔ ∃ place, t.locate dir = .ok place ∧ t.isDir dir = true ∧
      (x = .enter [] place ∨ ∃ name ∈ t.names place,
        (s.goesInto t dir isRoot name = true ∧
          ∃ y ∈ s.tour t fuel (dir.join name) false, y.behind name = x) ∨
        (s.goesInto t dir isRoot name = false ∧ s.picks t dir name = true ∧
          x = .take [] name)) := by
  rw [tour]
  cases t.locate dir with
  | error => simp
  | ok place =>
    by_cases hdir : t.isDir dir = true
    · simp only [hdir, if_true, List.mem_cons, List.mem_flatMap, Except.ok.injEq, true_and,
        exists_eq_left']
      refine or_congr_right (exists_congr fun name => and_congr_right fun _ => ?_)
      cases s.goesInto t dir isRoot name <;> cases s.picks t dir name <;> simp
    · simp [hdir]

lemma node?_of_enter_mem_tour {fuel : Nat} {dir : Path} {isRoot : Bool} {way : List Text}
    {place : Trail} (h : .enter way place ∈ s.tour t fuel dir isRoot) :
    t.node? place = some .directory := by
  induction fuel generalizing dir isRoot way with
  | zero => cases h
  | succ fuel ih =>
    obtain ⟨here, hhere, hdir, hx | ⟨name, -, ⟨-, y, hy, hx⟩ | ⟨-, -, hx⟩⟩⟩ := mem_tour_succ.1 h
    · cases hx
      exact node?_of_isDir hhere hdir
    · cases y with
      | take => cases hx
      | enter way' place' =>
        cases hx
        exact ih hy
    · cases hx

section Record

variable {dir : Path} {stops : List Stop}

/-- A record of directories stays sound, and gets no shorter. -/
lemma foldlM_record_keeps {found found' : Found} {n : Nat}
    (hstops : ∀ way place, .enter way place ∈ stops → t.node? place = some .directory)
    (hfound : IsSound t found ∧ n ≤ found.2.length)
    (h : stops.foldlM (record dir) found = .ok found') :
    IsSound t found' ∧ n ≤ found'.2.length := by
  refine foldlM_ok_induction (I := fun found : Found => IsSound t found ∧ n ≤ found.2.length)
    (fun x hx found found' hfound hstep => ?_) hfound h
  cases x with
  | enter way place =>
    rw [record] at hstep
    split at hstep
    next => cases hstep
    next hnew =>
      cases hstep
      exact ⟨hfound.1.enter (hstops way place hx) hnew, hfound.2.trans (Nat.le_succ _)⟩
  | take =>
    cases hstep
    exact ⟨⟨hfound.1.nodup, hfound.1.isDirectory⟩, hfound.2⟩

/-- **When a record succeeds.**  Exactly when the places are new and all different; and then they
are on record, with the files. -/
lemma foldlM_record_ok {found found' : Found} :
    stops.foldlM (record dir) found = .ok found' ↔
      (stops.filterMap Stop.place?).Nodup ∧ (∀ place ∈ stops.filterMap Stop.place?, place ∉ found.2) ∧
        found' = ((stops.filterMap (Stop.file? dir)).reverse ++ found.1,
          (stops.filterMap Stop.place?).reverse ++ found.2) := by
  induction stops generalizing found with
  | nil => simp [pure, Except.pure, eq_comm]
  | cons x stops ih =>
    rw [List.foldlM_cons]
    cases x with
    | enter way place =>
      rw [record]
      by_cases hentered : place ∈ found.2
      · simp [hentered, Stop.place?, bind, Except.bind]
      · rw [if_neg hentered]
        show stops.foldlM (record dir) (found.1, place :: found.2) = .ok found' ↔ _
        rw [ih]
        simp only [List.filterMap_cons, Stop.place?, Stop.file?, List.nodup_cons, List.mem_cons,
          not_or, forall_eq_or_imp, List.reverse_cons, List.append_assoc, List.singleton_append]
        grind
    | take way name =>
      show stops.foldlM (record dir) ((dir.descend way).join name :: found.1, found.2) =
        .ok found' ↔ _
      rw [ih]
      have hplaces : (Stop.take way name :: stops).filterMap Stop.place? =
          stops.filterMap Stop.place? := rfl
      have hfiles : (Stop.take way name :: stops).filterMap (Stop.file? dir) =
          (dir.descend way).join name :: stops.filterMap (Stop.file? dir) := rfl
      rw [hplaces, hfiles, List.reverse_cons, List.append_assoc, List.singleton_append]

/-- **Where a record fails.**  At a directory whose place is on record, or was entered before. -/
lemma exists_of_foldlM_record_error {found : Found} {f : Fault}
    (h : stops.foldlM (record dir) found = .error f) :
    ∃ before way place after, stops = before ++ .enter way place :: after ∧
      f = .symlinkCycle (dir.descend way) ∧
      (place ∈ found.2 ∨ place ∈ before.filterMap Stop.place?) := by
  induction stops generalizing found with
  | nil => cases h
  | cons x stops ih =>
    rw [List.foldlM_cons] at h
    cases x with
    | enter way place =>
      rw [record] at h
      by_cases hentered : place ∈ found.2
      · rw [if_pos hentered] at h
        cases h
        exact ⟨[], way, place, stops, rfl, rfl, .inl hentered⟩
      · rw [if_neg hentered] at h
        obtain ⟨before, way', place', after, rfl, hf, hplace⟩ := ih h
        refine ⟨.enter way place :: before, way', place', after, rfl, hf, ?_⟩
        simp only [List.filterMap_cons, Stop.place?, List.mem_cons] at hplace ⊢
        tauto
    | take way name =>
      obtain ⟨before, way', place', after, rfl, hf, hplace⟩ := ih h
      exact ⟨.take way name :: before, way', place', after, rfl, hf, hplace⟩

end Record

/-! ## Walks -/

/-- **A walk goes through its tour**, stop by stop, if there is fuel for the directories that are
not on record. -/
theorem walk_eq_foldlM {fuel : Nat} {dir : Path} {isRoot : Bool} {found : Found}
    (hfound : IsSound t found) (hfuel : t.countDirs < fuel + found.2.length) :
    s.walk t fuel dir isRoot found = (s.tour t fuel dir isRoot).foldlM (record dir) found := by
  induction fuel generalizing dir isRoot found with
  | zero => exact absurd hfound.length_le (by omega)
  | succ fuel ih =>
    rw [walk_succ, tour]
    cases hplace : t.locate dir with
    | error => rfl
    | ok place =>
      by_cases hdir : t.isDir dir = true
      · simp only [hdir, if_true, List.foldlM_cons, record]
        by_cases hentered : place ∈ found.2
        · rw [if_pos hentered, if_pos hentered]
          rfl
        rw [if_neg hentered, if_neg hentered]
        show _ = List.foldlM (record dir) (found.1, place :: found.2) _
        have hstart := hfound.enter (node?_of_isDir hplace hdir) hentered
        have hbehind (name : Text) (found : Found) :
            ((s.tour t fuel (dir.join name) false).map (Stop.behind name)).foldlM (record dir)
              found = (s.tour t fuel (dir.join name) false).foldlM (record (dir.join name)) found := by
          rw [List.foldlM_map]
          simp only [record_behind]
        rw [foldlM_flatMap]
        refine foldlM_congr_of
          (I := fun b : Found => IsSound t b ∧ found.2.length + 1 ≤ b.2.length)
          (fun name _ b b' hb hstep => ?_) (fun name _ b hb => ?_) ⟨hstart, le_rfl⟩
        · refine foldlM_record_keeps (fun way p hmem => ?_) hb hstep
          split at hmem
          next =>
            obtain ⟨y, hy, hbehind⟩ := List.mem_map.1 hmem
            cases y with
            | take => cases hbehind
            | enter => cases hbehind; exact node?_of_enter_mem_tour hy
          next => split at hmem <;> simp at hmem
        · rw [visit]
          by_cases hgoes : s.goesInto t dir isRoot name = true
          · rw [if_pos hgoes, if_pos hgoes, hbehind]
            exact ih hb.1 (by have := hb.2; omega)
          · rw [if_neg hgoes, if_neg hgoes]
            cases s.picks t dir name <;> rfl
      · simp only [hdir]
        rfl

/-- **More fuel makes no difference** if there is enough for the directories that are not on
record. -/
theorem walk_fuel {fuel : Nat} {dir : Path} {isRoot : Bool} {found : Found}
    (hfound : IsSound t found) (hfuel : t.countDirs < fuel + found.2.length) (more : Nat) :
    s.walk t (fuel + more) dir isRoot found = s.walk t fuel dir isRoot found := by
  induction fuel generalizing dir isRoot found with
  | zero => exact absurd hfound.length_le (by omega)
  | succ fuel ih =>
    rw [Nat.add_right_comm, walk_succ, walk_succ]
    cases hplace : t.locate dir with
    | error => rfl
    | ok place =>
      by_cases hdir : t.isDir dir = true
      · by_cases hentered : place ∈ found.2
        · simp only [hdir, hentered, if_true]
        simp only [hdir, hentered, if_true, if_false]
        have hstart := hfound.enter (node?_of_isDir hplace hdir) hentered
        refine foldlM_congr_of
          (I := fun b : Found => IsSound t b ∧ found.2.length + 1 ≤ b.2.length)
          (fun name _ b b' hb hstep => ?_) (fun name _ b hb => ?_) ⟨hstart, le_rfl⟩
        · rw [visit] at hstep
          split at hstep
          next =>
            rw [walk_eq_foldlM hb.1 (by have := hb.2; omega)] at hstep
            exact foldlM_record_keeps (fun way p => node?_of_enter_mem_tour) hb hstep
          next =>
            split at hstep
            · cases hstep
              exact ⟨⟨hb.1.nodup, hb.1.isDirectory⟩, hb.2⟩
            · cases hstep
              exact hb
        · rw [visit, visit, ih hb.1 (by have := hb.2; omega)]
      · simp only [hdir]
        rfl

/-! ## The stops of a tour -/

/-- A walk comes into the directory that some names lead to, from one directory to the next. -/
inductive Enters (s : Scan) (t : FileTree) : Path → Bool → List Text → Prop
  | here {dir : Path} {isRoot : Bool} (hdir : t.isDir dir = true) : Enters s t dir isRoot []
  | into {dir : Path} {isRoot : Bool} {place : Trail} {name : Text} {way : List Text}
      (hdir : t.isDir dir = true) (hplace : t.locate dir = .ok place) (hname : name ∈ t.names place)
      (hgoes : s.goesInto t dir isRoot name = true) (h : Enters s t (dir.join name) false way) :
      Enters s t dir isRoot (name :: way)

lemma exists_locate_of_isDir {dir : Path} (h : t.isDir dir = true) :
    ∃ place, t.locate dir = .ok place := by
  cases hplace : t.locate dir with
  | ok place => exact ⟨place, rfl⟩
  | error => simp [FileTree.isDir, FileTree.at?, hplace] at h

lemma Enters.isDir {dir : Path} {isRoot : Bool} {way : List Text} (h : s.Enters t dir isRoot way) :
    t.isDir (dir.descend way) = true := by
  induction h with
  | here hdir => exact hdir
  | into _ _ _ _ _ ih => exact ih

/-- On the way to a directory, a walk comes into those above. -/
lemma Enters.of_append {dir : Path} {isRoot : Bool} {way rest : List Text}
    (h : s.Enters t dir isRoot (way ++ rest)) : s.Enters t dir isRoot way := by
  induction way generalizing dir isRoot with
  | nil =>
    cases h with
    | here hdir => exact .here hdir
    | into hdir => exact .here hdir
  | cons name way ih =>
    cases h with
    | into hdir hplace hname hgoes h => exact .into hdir hplace hname hgoes (ih h)

lemma Enters.isDir_start {dir : Path} {isRoot : Bool} {way : List Text}
    (h : s.Enters t dir isRoot way) : t.isDir dir = true := by
  cases h with
  | here hdir => exact hdir
  | into hdir => exact hdir

/-- The directories of a tour are those that a walk comes into, as far as there is fuel. -/
lemma mem_tour_enter {fuel : Nat} {dir : Path} {isRoot : Bool} {way : List Text} {place : Trail} :
    .enter way place ∈ s.tour t fuel dir isRoot ↔
      way.length < fuel ∧ s.Enters t dir isRoot way ∧ t.locate (dir.descend way) = .ok place := by
  induction fuel generalizing dir isRoot way with
  | zero => simp [tour]
  | succ fuel ih =>
    rw [mem_tour_succ]
    constructor
    · rintro ⟨here, hhere, hdir, hx | ⟨name, hname, ⟨hgoes, y, hy, hx⟩ | ⟨-, -, hx⟩⟩⟩
      · cases hx
        exact ⟨Nat.succ_pos _, .here hdir, hhere⟩
      · cases y with
        | take => cases hx
        | enter way' place' =>
          cases hx
          obtain ⟨hlength, henters, hplace⟩ := ih.1 hy
          exact ⟨Nat.succ_lt_succ hlength, .into hdir hhere hname hgoes henters, hplace⟩
      · cases hx
    · rintro ⟨hlength, henters, hplace⟩
      cases henters with
      | here hdir => exact ⟨place, hplace, hdir, .inl rfl⟩
      | @into _ _ here name way hdir hhere hname hgoes h =>
        have hrest := ih.2 ⟨Nat.lt_of_succ_lt_succ hlength, h, hplace⟩
        exact ⟨here, hhere, hdir, .inr ⟨name, hname, .inl ⟨hgoes, _, hrest, rfl⟩⟩⟩

/-- The files of a tour are those that a walk takes from the directories that it comes into. -/
lemma mem_tour_take {fuel : Nat} {dir : Path} {isRoot : Bool} {way : List Text} {name : Text} :
    .take way name ∈ s.tour t fuel dir isRoot ↔
      way.length < fuel ∧ s.Enters t dir isRoot way ∧
        s.picks t (dir.descend way) name = true ∧
          ∃ place, t.locate (dir.descend way) = .ok place ∧ name ∈ t.names place := by
  induction fuel generalizing dir isRoot way with
  | zero => simp [tour]
  | succ fuel ih =>
    rw [mem_tour_succ]
    constructor
    · rintro ⟨here, hhere, hdir, hx | ⟨name', hname, ⟨hgoes, y, hy, hx⟩ | ⟨-, hpicks, hx⟩⟩⟩
      · cases hx
      · cases y with
        | enter => cases hx
        | take way' file =>
          cases hx
          obtain ⟨hlength, henters, hrest⟩ := ih.1 hy
          exact ⟨Nat.succ_lt_succ hlength, .into hdir hhere hname hgoes henters, hrest⟩
      · cases hx
        exact ⟨Nat.succ_pos _, .here hdir, hpicks, here, hhere, hname⟩
    · rintro ⟨hlength, henters, hpicks, place, hplace, hname⟩
      cases henters with
      | here hdir =>
        -- what is taken is no directory
        have hgoes (isRoot : Bool) : s.goesInto t dir isRoot name = false := by
          simp only [picks, Path.descend_nil, Bool.and_eq_true, Bool.not_eq_true'] at hpicks
          simp [goesInto, hpicks.1.2]
        exact ⟨place, hplace, hdir, .inr ⟨name, hname, .inr ⟨hgoes _, hpicks, rfl⟩⟩⟩
      | @into _ _ here name' way hdir hhere hname' hgoes h =>
        have hrest := ih.2 ⟨Nat.lt_of_succ_lt_succ hlength, h, hpicks, place, hplace, hname⟩
        exact ⟨here, hhere, hdir, .inr ⟨name', hname', .inl ⟨hgoes, _, hrest, rfl⟩⟩⟩

/-- No stop is twice on a tour. -/
lemma tour_nodup (ht : t.IsTree) (fuel : Nat) (dir : Path) (isRoot : Bool) :
    (s.tour t fuel dir isRoot).Nodup := by
  induction fuel generalizing dir isRoot with
  | zero => exact List.nodup_nil
  | succ fuel ih =>
    rw [tour]
    cases t.locate dir with
    | error => exact List.nodup_nil
    | ok place =>
      by_cases hdir : t.isDir dir = true
      · simp only [hdir, if_true]
        -- what is below a name begins with it
        have hhead (name : Text) (x : Stop) (hx : x ∈ if s.goesInto t dir isRoot name then
            (s.tour t fuel (dir.join name) false).map (.behind name)
            else if s.picks t dir name then [.take [] name] else []) :
            x.trail.head? = some name := by
          split at hx
          next =>
            obtain ⟨y, -, rfl⟩ := List.mem_map.1 hx
            exact y.head?_trail_behind name
          next =>
            split at hx
            · rw [List.mem_singleton.1 hx]
              rfl
            · cases hx
        refine List.nodup_cons.2 ⟨fun hmem => ?_, List.nodup_flatMap.2 ⟨fun name _ => ?_, ?_⟩⟩
        · obtain ⟨name, -, hx⟩ := List.mem_flatMap.1 hmem
          cases hhead name _ hx
        · split
          next => exact (ih _ _).map (Stop.behind_injective name)
          next => split <;> simp
        · refine (ht.names_nodup place).imp fun {name name'} hne x hx hx' => ?_
          have heq := (hhead name x hx).symm.trans (hhead name' x hx')
          exact hne (Option.some.inj heq)
      · simp only [hdir]
        exact List.nodup_nil

/-! ## Other orders -/

section Relisted

variable {t' : FileTree} (h : t.Relisted t')

include h

lemma config_relisted (dir : Path) : Config.find? t' dir = Config.find? t dir := by
  rw [Config.find?, Config.find?, funext h.isFile_eq]

lemma goesInto_relisted (dir : Path) (isRoot : Bool) (name : Text) :
    s.goesInto t' dir isRoot name = s.goesInto t dir isRoot name := by
  rw [goesInto, goesInto, h.isDir_eq, config_relisted h]

lemma picks_relisted (dir : Path) (name : Text) : s.picks t' dir name = s.picks t dir name := by
  rw [picks, picks, takes, takes, h.isDir_eq, h.size?_eq]

/-- **Other orders, the same stops.** -/
theorem tour_relisted (ht : t.IsTree) (ht' : t'.IsTree) (fuel : Nat) (dir : Path) (isRoot : Bool) :
    (s.tour t' fuel dir isRoot).Perm (s.tour t fuel dir isRoot) := by
  induction fuel generalizing dir isRoot with
  | zero => exact .refl _
  | succ fuel ih =>
    rw [tour, tour, h.locate_eq, h.isDir_eq]
    cases t.locate dir with
    | error => exact .refl _
    | ok place =>
      by_cases hdir : t.isDir dir = true
      · simp only [hdir, if_true, goesInto_relisted h, picks_relisted h]
        refine ((h.names_perm ht ht' place).flatMap fun name _ => ?_).cons _
        split
        next => exact (ih _ _).map _
        next => exact .refl _
      · simp only [hdir]
        exact .refl _

end Relisted

end Scan

end Docmark
