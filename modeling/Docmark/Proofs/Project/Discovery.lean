import Mathlib
import Docmark.Proofs.Path.Order
import Docmark.Proofs.Project.Tour

/-!
# Which documents are found

A walk over a project succeeds if no two ways lead it into the same directory.  Then it finds the
files of its tour, sorted, and in whatever order directories are listed it finds the same.

## Main results

* `Scan.documents_ok_iff` — when documents are found, and which.
* `Scan.documents_relisted` — the order of listings does not count.
* `Scan.walk_fails_iff` — a walk fails where two ways lead into one directory;
  `Scan.walk_fails_at_sibling`, that these need not be one inside the other.
-/

namespace Docmark

namespace Scan

variable {s : Scan} {t : FileTree}

/-! ## The tour of a project -/

/-- **When documents are found.**  Exactly when the places of the tour are all different; and they
are the files of the tour, sorted. -/
theorem documents_ok_iff {fuel : Nat} (hfuel : t.countDirs < fuel) {files : List Path} :
    s.documents t = .ok files ↔
      ((s.tour t fuel s.root true).filterMap Stop.place?).Nodup ∧
        files = ((s.tour t fuel s.root true).filterMap (Stop.file? s.root)).reverse.mergeSort
          Path.le := by
  have hwalk : s.walk t (t.countDirs + 1) s.root true ([], []) =
      (s.tour t fuel s.root true).foldlM (record s.root) ([], []) := by
    obtain ⟨more, rfl⟩ := Nat.exists_eq_add_of_le (show t.countDirs + 1 ≤ fuel from hfuel)
    rw [← walk_eq_foldlM isSound_start (by simpa using hfuel),
      walk_fuel isSound_start (by simp) more]
  rw [documents, hwalk]
  constructor
  · intro h
    obtain ⟨found, hfound, h⟩ := exists_of_bind_ok h
    obtain ⟨hnodup, -, rfl⟩ := foldlM_record_ok.1 hfound
    cases h
    exact ⟨hnodup, by simp⟩
  · rintro ⟨hnodup, rfl⟩
    rw [foldlM_record_ok.2 ⟨hnodup, by simp, rfl⟩]
    simp [bind, Except.bind, pure, Except.pure]

/-- A walk that goes into no directory below its root finds the files there that it picks. -/
lemma documents_of_flat {place : Trail} (hroot : t.locate s.root = .ok place)
    (hdir : t.isDir s.root = true)
    (hflat : ∀ name ∈ t.names place, s.goesInto t s.root true name = false) :
    s.documents t = .ok ((((t.names place).filter (s.picks t s.root)).map
      s.root.join).reverse.mergeSort Path.le) := by
  have htour : s.tour t (t.countDirs + 1) s.root true =
      .enter [] place :: ((t.names place).filter (s.picks t s.root)).map (.take []) := by
    rw [tour, hroot]
    simp only [hdir, if_true]
    congr 1
    generalize t.names place = names at hflat
    induction names with
    | nil => rfl
    | cons name names ih =>
      obtain ⟨hname, hnames⟩ := List.forall_mem_cons.1 hflat
      rw [List.flatMap_cons, ih hnames, hname, List.filter_cons]
      cases s.picks t s.root name <;> rfl
  have hplaces (names : List Text) : (names.map (Stop.take [])).filterMap Stop.place? = [] := by
    rw [List.filterMap_map]
    exact List.filterMap_none names
  have hfiles (names : List Text) :
      (names.map (Stop.take [])).filterMap (Stop.file? s.root) = names.map s.root.join := by
    rw [List.filterMap_map]
    exact congrFun List.filterMap_eq_map names
  rw [documents_ok_iff (Nat.lt_succ_self _), htour]
  constructor
  · show (place :: List.filterMap Stop.place? _).Nodup
    rw [hplaces]
    exact List.nodup_singleton place
  · exact congrArg (fun files => files.reverse.mergeSort Path.le) (hfiles _).symm

/-! ## Other orders -/

lemma Enters.isName (ht : t.IsTree) {dir : Path} {isRoot : Bool} {way : List Text}
    (h : s.Enters t dir isRoot way) : ∀ name ∈ way, Path.IsName name := by
  induction h with
  | here => simp
  | into _ _ hname _ _ ih => exact List.forall_mem_cons.2 ⟨ht.isName_of_mem_names hname, ih⟩

lemma isName_of_take_mem_tour (ht : t.IsTree) {fuel : Nat} {dir : Path} {isRoot : Bool}
    {way : List Text} {name : Text} (h : .take way name ∈ s.tour t fuel dir isRoot) :
    ∀ piece ∈ way ++ [name], Path.IsName piece := by
  obtain ⟨-, henters, -, place, -, hname⟩ := mem_tour_take.1 h
  intro piece hpiece
  rcases List.mem_append.1 hpiece with hpiece | hpiece
  · exact henters.isName ht piece hpiece
  · rw [List.mem_singleton.1 hpiece]
    exact ht.isName_of_mem_names hname

/-- Stops of a tour at files with the same components are the same. -/
lemma eq_of_file? (ht : t.IsTree) {fuel : Nat} {dir : Path} {isRoot : Bool} {x y : Stop}
    (hx : x ∈ s.tour t fuel dir isRoot) (hy : y ∈ s.tour t fuel dir isRoot) {p q : Path}
    (hp : x.file? dir = some p) (hq : y.file? dir = some q)
    (h : p.components = q.components) : x = y := by
  cases x with
  | enter => cases hp
  | take way name =>
    cases y with
    | enter => cases hq
    | take way' name' =>
      cases hp
      cases hq
      rw [← Path.descend_concat, ← Path.descend_concat] at h
      have hway := dir.descend_inj (isName_of_take_mem_tour ht hx) (isName_of_take_mem_tour ht hy) h
      obtain ⟨rfl, hname⟩ := List.append_inj' hway rfl
      rw [List.singleton_inj.1 hname]

/-- Files of a tour with the same components are the same. -/
lemma eq_of_mem_files (ht : t.IsTree) {fuel : Nat} {dir : Path} {isRoot : Bool} {p q : Path}
    (hp : p ∈ (s.tour t fuel dir isRoot).filterMap (Stop.file? dir))
    (hq : q ∈ (s.tour t fuel dir isRoot).filterMap (Stop.file? dir))
    (h : p.components = q.components) : p = q := by
  obtain ⟨x, hx, hxp⟩ := List.mem_filterMap.1 hp
  obtain ⟨y, hy, hyq⟩ := List.mem_filterMap.1 hq
  rw [eq_of_file? ht hx hy hxp hyq h, hyq] at hxp
  exact (Option.some.inj hxp).symm

lemma documents_ok_of_relisted (s : Scan) {t t' : FileTree} (ht : t.IsTree) (ht' : t'.IsTree)
    (h : t.Relisted t') {files : List Path} (hfiles : s.documents t = .ok files) :
    s.documents t' = .ok files := by
  -- fuel enough for both
  have hfuel : t.countDirs < t.countDirs + t'.countDirs + 1 := by omega
  have hfuel' : t'.countDirs < t.countDirs + t'.countDirs + 1 := by omega
  obtain ⟨hnodup, rfl⟩ := (documents_ok_iff hfuel).1 hfiles
  have hperm := tour_relisted (s := s) h ht ht' (t.countDirs + t'.countDirs + 1) s.root true
  refine (documents_ok_iff hfuel').2
    ⟨(hperm.filterMap _).nodup_iff.2 hnodup, ?_⟩
  refine Path.mergeSort_le_eq ?_ fun p hp q hq => ?_
  · exact (List.reverse_perm _).trans ((hperm.symm.filterMap _).trans (List.reverse_perm _).symm)
  · exact eq_of_mem_files ht (List.mem_reverse.1 hp) (List.mem_reverse.1 hq)

/-- The settings ask for the same walk, in whatever order directories are listed. -/
lemma ofConfig_relisted (h : t.Relisted t') (root : Path) (c : Config) :
    ofConfig t' root c = ofConfig t root c := by
  simp only [ofConfig, ignoreFile, h.readBytes_eq]

/-- **The order of listings does not count.**  In two trees with the same at each place, in each of
which the entries of a directory are listed in any order, a walk finds documents in the one exactly
if it does in the other, and then it finds the same, in the same order; and so it is with the walk
that any settings ask for. -/
theorem documents_relisted {t t' : FileTree} (ht : t.IsTree) (ht' : t'.IsTree)
    (h : t.Relisted t') :
    (∀ (s : Scan) files, s.documents t = .ok files ↔ s.documents t' = .ok files) ∧
    ∀ root c files, (ofConfig t root c >>= fun s => s.documents t) = .ok files ↔
      (ofConfig t' root c >>= fun s => s.documents t') = .ok files := by
  have hscan (s : Scan) (files : List Path) :
      s.documents t = .ok files ↔ s.documents t' = .ok files :=
    ⟨documents_ok_of_relisted s ht ht' h, documents_ok_of_relisted s ht' ht h.symm⟩
  refine ⟨hscan, fun root c files => ?_⟩
  rw [ofConfig_relisted h]
  cases ofConfig t root c with
  | error f => exact Iff.rfl
  | ok s => exact hscan s files

/-- Two documents, listed in the one order and in the other. -/
theorem documents_relisted_swap :
    let s : Scan := ⟨"/".toList, [], [], [], 10⟩
    let a : Trail × FileNode := (["a.md".toList], .file ⟨#[65]⟩)
    let b : Trail × FileNode := (["b.md".toList], .file ⟨#[66]⟩)
    let t : FileTree := ⟨[a, b], []⟩
    let t' : FileTree := ⟨[b, a], []⟩
    t.IsTree ∧ t'.IsTree ∧ t.Relisted t' ∧
      s.documents t' = .ok ["/a.md".toList, "/b.md".toList] := by
  intro s a b t t'
  have ht : t.IsTree := by decide
  have ht' : t'.IsTree := by decide
  have h : t.Relisted t' := by
    refine ⟨rfl, fun place => ?_⟩
    by_cases hb : place = ["b.md".toList]
    · rw [hb]
      rfl
    · have hb' : (place == ["b.md".toList]) = false := by simpa using hb
      simp only [t, t', a, b, FileTree.node?, List.lookup_cons, List.lookup_nil, hb']
  have htour : s.tour t 2 s.root true =
      [.enter [] [], .take [] "a.md".toList, .take [] "b.md".toList] := by
    have hroot : t.locate s.root = .ok [] := by cbv
    have hdir : t.isDir s.root = true := by cbv
    have hnames : t.names [] = ["a.md".toList, "b.md".toList] := rfl
    have ha : s.goesInto t s.root true "a.md".toList = false ∧
        s.picks t s.root "a.md".toList = true := ⟨by cbv, by cbv⟩
    have hb : s.goesInto t s.root true "b.md".toList = false ∧
        s.picks t s.root "b.md".toList = true := ⟨by cbv, by cbv⟩
    simp only [tour, hroot, hdir, if_true, hnames, List.flatMap_cons, List.flatMap_nil, ha, hb]
    rfl
  have hdocuments : s.documents t = .ok ["/a.md".toList, "/b.md".toList] := by
    rw [documents_ok_iff (show t.countDirs < 2 by decide), htour]
    exact ⟨by decide, by cbv⟩
  exact ⟨ht, ht', h, ((documents_relisted ht ht' h).1 s _).1 hdocuments⟩

/-! ## Failures -/

/-- Where documents are not found, the tour comes to a directory by a second way. -/
lemma exists_of_documents_error (ht : t.IsTree) {f : Fault} (h : s.documents t = .error f) :
    ∃ way other, way ≠ other ∧ s.Enters t s.root true way ∧ s.Enters t s.root true other ∧
      t.locate (s.root.descend way) = t.locate (s.root.descend other) ∧
        f = .symlinkCycle (s.root.descend way) := by
  rw [documents, walk_eq_foldlM isSound_start (by simp)] at h
  have hrecord : (s.tour t (t.countDirs + 1) s.root true).foldlM (record s.root) ([], []) =
      .error f := by
    cases hfold : (s.tour t (t.countDirs + 1) s.root true).foldlM (record s.root) ([], []) with
    | error e =>
      rw [hfold] at h
      exact congrArg Except.error (Except.error.inj h)
    | ok found =>
      rw [hfold] at h
      cases h
  obtain ⟨before, way, place, after, htour, rfl, hplace⟩ := exists_of_foldlM_record_error hrecord
  obtain ⟨x, hx, hxplace⟩ := List.mem_filterMap.1 (hplace.resolve_left (by simp))
  cases x with
  | take => cases hxplace
  | enter other place' =>
    cases hxplace
    have hnodup := tour_nodup (s := s) ht (t.countDirs + 1) s.root true
    have hmem : .enter way place ∈ s.tour t (t.countDirs + 1) s.root true := by
      rw [htour]
      simp
    have hmem' : .enter other place ∈ s.tour t (t.countDirs + 1) s.root true := by
      rw [htour]
      exact List.mem_append_left _ hx
    obtain ⟨-, henters, hlocate⟩ := mem_tour_enter.1 hmem
    obtain ⟨-, henters', hlocate'⟩ := mem_tour_enter.1 hmem'
    refine ⟨way, other, ?_, henters, henters', hlocate.trans hlocate'.symm, rfl⟩
    rintro rfl
    -- a stop would be twice on the tour
    rw [htour, List.nodup_append] at hnodup
    exact hnodup.2.2 _ hx _ List.mem_cons_self rfl

/-- On a tour through different places, each place is entered by one way. -/
lemma eq_of_enter_mem_tour {fuel : Nat} {dir : Path} {isRoot : Bool}
    (hnodup : ((s.tour t fuel dir isRoot).filterMap Stop.place?).Nodup) {way way' : List Text}
    {place : Trail} (h : .enter way place ∈ s.tour t fuel dir isRoot)
    (h' : .enter way' place ∈ s.tour t fuel dir isRoot) : way = way' := by
  by_contra hne
  have hstops : Stop.enter way place ≠ .enter way' place := by
    rintro ⟨⟩
    exact hne rfl
  rw [List.Nodup, List.pairwise_filterMap] at hnodup
  have hsymm : Std.Symm fun x y : Stop =>
      ∀ p, x.place? = some p → ∀ q, y.place? = some q → p ≠ q :=
    ⟨fun x y hxy p hp q hq => (hxy q hq p hp).symm⟩
  exact hnodup.forall h h' hstops place rfl place rfl rfl

/-- On a tour through different places, every way has fewer names than there is fuel. -/
lemma length_lt_of_nodup {fuel : Nat} (hfuel : t.countDirs < fuel) {dir : Path} {isRoot : Bool}
    (hnodup : ((s.tour t fuel dir isRoot).filterMap Stop.place?).Nodup) {way : List Text}
    (h : s.Enters t dir isRoot way) : way.length < fuel := by
  by_contra hlong
  rw [not_lt] at hlong
  -- the directories on the way are different places, and too many
  have hentered (i : Nat) (hi : i < fuel) :
      ∃ place, .enter (way.take i) place ∈ s.tour t fuel dir isRoot := by
    have htake : s.Enters t dir isRoot (way.take i) := by
      rw [← List.take_append_drop i way] at h
      exact h.of_append
    obtain ⟨place, hplace⟩ := exists_locate_of_isDir htake.isDir
    exact ⟨place, mem_tour_enter.2 ⟨by rw [List.length_take]; omega, htake, hplace⟩⟩
  choose! placeOf hplaceOf using hentered
  have hplaces : ((List.range fuel).map placeOf).Nodup := by
    refine List.nodup_range.map_on fun i hi j hj hij => ?_
    rw [List.mem_range] at hi hj
    have hway := eq_of_enter_mem_tour hnodup (hplaceOf i hi) (hij ▸ hplaceOf j hj)
    have hlength := congrArg List.length hway
    rw [List.length_take, List.length_take] at hlength
    omega
  have hcount := FileTree.length_le_countDirs (t := t) hplaces fun place hplace => by
    obtain ⟨i, hi, rfl⟩ := List.mem_map.1 hplace
    exact node?_of_enter_mem_tour (hplaceOf i (List.mem_range.1 hi))
  rw [List.length_map, List.length_range] at hcount
  omega

/-- Where two ways lead into one directory, documents are not found. -/
lemma documents_ne_ok {way other : List Text} (hne : way ≠ other)
    (hway : s.Enters t s.root true way) (hother : s.Enters t s.root true other)
    (hsame : t.locate (s.root.descend way) = t.locate (s.root.descend other)) (files : List Path) :
    s.documents t ≠ .ok files := by
  intro hdocuments
  obtain ⟨hnodup, -⟩ := (documents_ok_iff (Nat.lt_succ_self _)).1 hdocuments
  obtain ⟨place, hplace⟩ := exists_locate_of_isDir hway.isDir
  have hmem := mem_tour_enter.2 ⟨length_lt_of_nodup (Nat.lt_succ_self _) hnodup hway, hway, hplace⟩
  have hmem' := mem_tour_enter.2
    ⟨length_lt_of_nodup (Nat.lt_succ_self _) hnodup hother, hother, hsame ▸ hplace⟩
  exact hne (eq_of_enter_mem_tour hnodup hmem hmem')

/-- **Where a walk fails.**  The bound on the depth of a walk has no part in what it does: the walk
ends.  It fails exactly if two different ways of names, of which the one may or may not go on from
the other, lead it into the same directory, and the fault names the directory by one of the
ways. -/
theorem walk_fails_iff (s : Scan) {t : FileTree} (ht : t.IsTree) :
    (∀ more, s.walk t (t.countDirs + 1 + more) s.root true ([], []) =
      s.walk t (t.countDirs + 1) s.root true ([], [])) ∧
    (∀ f, s.documents t = .error f → ∃ way other, way ≠ other ∧
      s.Enters t s.root true way ∧ s.Enters t s.root true other ∧
        t.locate (s.root.descend way) = t.locate (s.root.descend other) ∧
          f = .symlinkCycle (s.root.descend way)) ∧
    ∀ way other, way ≠ other → s.Enters t s.root true way → s.Enters t s.root true other →
      t.locate (s.root.descend way) = t.locate (s.root.descend other) →
        ∃ f, s.documents t = .error f := by
  refine ⟨fun more => walk_fuel isSound_start (by simp) more,
    fun f hf => exists_of_documents_error ht hf, fun way other hne hway hother hsame => ?_⟩
  cases hdocuments : s.documents t with
  | error f => exact ⟨f, rfl⟩
  | ok files => exact absurd hdocuments (documents_ne_ok hne hway hother hsame files)

/-- A directory with a link to itself. -/
theorem walk_fails_iff_loop :
    let s : Scan := ⟨"/".toList, [], [], [], 1⟩
    let t : FileTree := ⟨[(["loop".toList], .link ".".toList)], []⟩
    t.IsTree ∧ t.locate "/loop".toList = t.locate s.root ∧ ∃ f, s.documents t = .error f := by
  intro s t
  have ht : t.IsTree := by decide
  have hroot : t.locate s.root = .ok [] := by cbv
  have hloop : t.locate "/loop".toList = t.locate s.root := by cbv
  have hdir : t.isDir s.root = true := by cbv
  have hdir' : t.isDir (s.root.join "loop".toList) = true := by cbv
  have hgoes : s.goesInto t s.root true "loop".toList = true := by cbv
  have henters : s.Enters t s.root true ["loop".toList] :=
    .into hdir hroot (by decide) hgoes (.here hdir')
  exact ⟨ht, hloop,
    (walk_fails_iff s ht).2.2 ["loop".toList] [] (by decide) henters (.here hdir) hloop⟩

/-- **A directory with two ways to it.**  Next to a directory stands a link to it.  In whatever order
the two are listed, the walk fails; but it comes into no directory inside of itself. -/
theorem walk_fails_at_sibling :
    let s : Scan := ⟨"/".toList, [], [], [], 1⟩
    let t : FileTree := ⟨[(["a".toList], .directory),
      (["a".toList, "x.md".toList], .file (FileTree.encode ['x'])),
      (["b".toList], .link "a".toList)], []⟩
    (∀ t' : FileTree, t'.IsTree → t.Relisted t' →
      ∃ dir, s.documents t' = .error (.symlinkCycle dir)) ∧
      ∀ way upper, s.Enters t s.root true way → upper <+: way →
        t.locate (s.root.descend upper) = t.locate (s.root.descend way) → upper = way := by
  intro s t
  have ht : t.IsTree := by decide
  have hroot : t.locate s.root = .ok [] := by cbv
  have hdir : t.isDir s.root = true := by cbv
  have hnames : t.names [] = ["a".toList, "b".toList] := rfl
  have hplace {name : Text} (hname : name ∈ t.names []) :
      t.locate (s.root.join name) = .ok ["a".toList] ∧ t.isDir (s.root.join name) = true ∧
        s.goesInto t s.root true name = true ∧
          s.goesInto t (s.root.join name) false "x.md".toList = false := by
    simp only [hnames, List.mem_cons, List.not_mem_nil, or_false] at hname
    rcases hname with rfl | rfl
    · exact ⟨by cbv, by cbv, by cbv, by cbv⟩
    · exact ⟨by cbv, by cbv, by cbv, by cbv⟩
  constructor
  · intro t' ht' h
    have henters {name : Text} (hname : name ∈ t.names []) : s.Enters t s.root true [name] :=
      .into hdir hroot hname (hplace hname).2.2.1 (.here (hplace hname).2.1)
    have ha : "a".toList ∈ t.names [] := by decide
    have hb : "b".toList ∈ t.names [] := by decide
    have hfails := documents_ne_ok (by decide) (henters ha) (henters hb)
      ((hplace ha).1.trans (hplace hb).1.symm)
    cases hdocuments : s.documents t' with
    | ok files => exact absurd (documents_ok_of_relisted s ht' ht h.symm hdocuments) (hfails files)
    | error f =>
      obtain ⟨way, -, -, -, -, -, rfl⟩ := exists_of_documents_error ht' hdocuments
      exact ⟨_, rfl⟩
  · intro way upper h hprefix hsame
    cases h with
    | here => exact List.prefix_nil.1 hprefix
    | into _ hlocate hname _ h =>
      obtain rfl := Except.ok.inj (hroot.symm.trans hlocate)
      cases h with
      | here =>
        obtain rfl | ⟨_, rfl, hnil⟩ := List.prefix_cons_iff.1 hprefix
        · have hroot' : t.locate s.root = .ok ["a".toList] := hsame.trans (hplace hname).1
          rw [hroot] at hroot'
          cases hroot'
        · rw [List.prefix_nil.1 hnil]
      | into _ hlocate' hname' hgoes' =>
        -- nothing but a file is listed in the directory
        obtain rfl := Except.ok.inj ((hplace hname).1.symm.trans hlocate')
        have hbelow : t.names ["a".toList] = ["x.md".toList] := rfl
        rw [hbelow, List.mem_singleton] at hname'
        subst hname'
        rw [(hplace hname).2.2.2] at hgoes'
        cases hgoes'

end Scan

end Docmark
