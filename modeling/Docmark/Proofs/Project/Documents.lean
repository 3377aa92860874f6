import Mathlib
import Docmark.Proofs.FileTree.Locate
import Docmark.Proofs.Project.Discovery

/-!
# Which files are documents

In a tree without links, documents are always found: the Markdown files below the root that are not
too large and that the file patterns want, if on the way to them every name is passed.  Names are
passed (`Scan.Passes`) that are not skipped, that the ignore patterns do not leave out, and that are
not those of a directory with settings of its own; but right below the root, settings do not count.

## Main results

* `Scan.documents_sorted` — documents are in strict order.
* `Scan.enters_iff` — which directories a walk comes into.
* `Scan.documents_exactly` — which files are documents.
-/

namespace Docmark

namespace Scan

variable {s : Scan} {t : FileTree}

/-! ## Order -/

/-- Each document stands before all later ones. -/
lemma documents_sorted (ht : t.IsTree) {files : List Path} (h : s.documents t = .ok files) :
    files.Pairwise fun p q => p.le q = true ∧ q.le p = false := by
  obtain ⟨-, rfl⟩ := (documents_ok_iff (Nat.lt_succ_self _)).1 h
  have hnodup := tour_nodup (s := s) ht (t.countDirs + 1) s.root true
  refine Path.pairwise_lt_mergeSort ?_
  rw [List.map_reverse, List.nodup_reverse, List.Nodup, List.pairwise_map, List.pairwise_filterMap]
  refine hnodup.imp_of_mem fun {x y} hx hy hne p hp q hq h => hne ?_
  exact eq_of_file? ht hx hy hp hq h

/-! ## Ways -/

/-- What all steps of a longer way have: those of the way, and the last one. -/
lemma forall_prefix_concat {P : List Text → Text → Prop} {way : List Text} {name : Text} :
    (∀ above next, above ++ [next] <+: way ++ [name] → P above next) ↔
      (∀ above next, above ++ [next] <+: way → P above next) ∧ P way name := by
  constructor
  · intro h
    exact ⟨fun above next hway => h above next (hway.trans (List.prefix_append _ _)),
      h way name (List.prefix_refl _)⟩
  · rintro ⟨hway, hlast⟩ above next h
    rcases List.prefix_concat_iff.1 h with heq | hprefix
    · obtain ⟨rfl, hnext⟩ := List.append_inj' heq rfl
      rwa [List.singleton_inj.1 hnext]
    · exact hway above next hprefix

/-- A walk goes on from a directory by the names that are listed there. -/
lemma enters_concat {dir : Path} {isRoot : Bool} {way : List Text} {name : Text} :
    s.Enters t dir isRoot (way ++ [name]) ↔ s.Enters t dir isRoot way ∧
      (∃ place, t.locate (dir.descend way) = .ok place ∧ name ∈ t.names place) ∧
        s.goesInto t (dir.descend way) (isRoot && way.isEmpty) name = true := by
  induction way generalizing dir isRoot with
  | nil =>
    constructor
    · rintro (_ | ⟨hdir, hplace, hname, hgoes, h⟩)
      exact ⟨.here hdir, ⟨_, hplace, hname⟩, by simpa using hgoes⟩
    · rintro ⟨h, ⟨place, hplace, hname⟩, hgoes⟩
      rw [List.isEmpty_nil, Bool.and_true] at hgoes
      have hdir : t.isDir (dir.join name) = true := by
        simp only [goesInto, Path.descend_nil, Bool.and_eq_true] at hgoes
        exact hgoes.1.2
      exact .into h.isDir hplace hname hgoes (.here hdir)
  | cons first way ih =>
    constructor
    · rintro (_ | ⟨hdir, hplace, hname, hgoes, h⟩)
      obtain ⟨h, hlisted, hlast⟩ := ih.1 h
      exact ⟨.into hdir hplace hname hgoes h, hlisted, by simpa using hlast⟩
    · rintro ⟨h, hlisted, hlast⟩
      cases h with
      | into hdir hplace hname hgoes h =>
        exact .into hdir hplace hname hgoes (ih.2 ⟨h, hlisted, by simpa using hlast⟩)

/-- A name is passed in the directory that some names lead to from the root: the name is not
skipped, the ignore patterns do not leave out what stands there, and if it is a directory, then one
without settings of its own, unless it is right below the root. -/
structure Passes (s : Scan) (t : FileTree) (way : List Text) (name : Text) : Prop where
  notSkipped : isSkippedName name = false
  notLeftOut : s.leavesOut (s.root.descend (way ++ [name]))
    (t.isDir (s.root.descend (way ++ [name]))) = false
  noSettings : way ≠ [] → t.isDir (s.root.descend (way ++ [name])) = true →
    Config.find? t (s.root.descend (way ++ [name])) = none

/-- A walk goes into the directories whose names are passed. -/
lemma goesInto_iff {way : List Text} {name : Text} :
    s.goesInto t (s.root.descend way) way.isEmpty name = true ↔
      t.isDir (s.root.descend (way ++ [name])) = true ∧ s.Passes t way name := by
  rw [goesInto, ← Path.descend_concat]
  simp only [Bool.and_eq_true, Bool.or_eq_true, Bool.not_eq_true', List.isEmpty_iff,
    Option.isNone_iff_eq_none]
  constructor
  · rintro ⟨⟨⟨hname, hpatterns⟩, hdir⟩, hsettings⟩
    exact ⟨hdir, hname, by rw [hdir]; exact hpatterns, fun hway _ => hsettings.resolve_left hway⟩
  · rintro ⟨hdir, hname, hpatterns, hsettings⟩
    rw [hdir] at hpatterns
    refine ⟨⟨⟨hname, hpatterns⟩, hdir⟩, ?_⟩
    by_cases hway : way = []
    · exact .inl hway
    · exact .inr (hsettings hway hdir)

/-- A walk takes the Markdown files whose names are passed. -/
lemma picks_iff {way : List Text} {name : Text} :
    s.picks t (s.root.descend way) name = true ↔
      t.isDir (s.root.descend (way ++ [name])) = false ∧ s.Passes t way name ∧
        s.takes t (s.root.descend (way ++ [name])) = true := by
  rw [picks, ← Path.descend_concat]
  simp only [Bool.and_eq_true, Bool.not_eq_true']
  constructor
  · rintro ⟨⟨⟨hname, hpatterns⟩, hdir⟩, htakes⟩
    exact ⟨hdir, ⟨hname, by rw [hdir]; exact hpatterns, fun _ h => by rw [hdir] at h; cases h⟩,
      htakes⟩
  · rintro ⟨hdir, ⟨hname, hpatterns, -⟩, htakes⟩
    rw [hdir] at hpatterns
    exact ⟨⟨⟨hname, hpatterns⟩, hdir⟩, htakes⟩

lemma size?_eq_some {p : Path} {n : Nat} :
    t.size? p = some n ↔ ∃ content, t.at? p = some (.file content) ∧ content.size = n := by
  rw [FileTree.size?]
  split
  next content hfile => simp [hfile]
  next hnot => simpa using fun content hfile => absurd hfile (hnot content)

/-- Which files below the root are taken. -/
lemma takes_iff (hroot : s.root ≠ []) {names : List Text} (hne : names ≠ [])
    (hnames : ∀ name ∈ names, Path.IsName name) :
    s.takes t (s.root.descend names) = true ↔ (s.root.descend names).isMarkdown = true ∧
      (s.wanted = [] ∨ ∃ g ∈ s.wanted, g.accepts (List.intercalate ['/'] names) = true) ∧
        ∃ content, t.at? (s.root.descend names) = some (.file content) ∧
          content.size ≤ s.maxSize := by
  rw [takes, Path.below?_descend hroot hne hnames]
  simp only [Option.getD_some, Bool.and_eq_true, Bool.or_eq_true, List.isEmpty_iff, List.any_eq_true,
    Option.any_eq_true, decide_eq_true_eq, size?_eq_some, and_assoc]
  refine and_congr_right fun _ => and_congr_right fun _ => ⟨?_, ?_⟩
  · rintro ⟨_, ⟨content, hfile, rfl⟩, hsize⟩
    exact ⟨content, hfile, hsize⟩
  · rintro ⟨content, hfile, hsize⟩
    exact ⟨_, ⟨content, hfile, rfl⟩, hsize⟩

lemma ne_nil_of_isDir {dir : Path} (h : t.isDir dir = true) : dir ≠ [] := by
  rintro rfl
  cases h

lemma isSome_at?_of_isDir {p : Path} (h : t.isDir p = true) : (t.at? p).isSome = true := by
  rw [FileTree.isDir] at h
  split at h
  next hdirectory =>
    rw [hdirectory]
    rfl
  next => cases h

/-- A directory is what has something listed in it. -/
lemma isDir_of_listed (ht : t.IsTree) {dir : Path} {name : Text}
    (h : ∃ place, t.locate dir = .ok place ∧ name ∈ t.names place) : t.isDir dir = true := by
  obtain ⟨place, hplace, hname⟩ := h
  have habove := ht.node?_dropLast (FileTree.mem_names_iff.1 hname)
  rw [List.dropLast_concat] at habove
  simp only [FileTree.isDir, FileTree.at?, hplace, habove]

/-! ## Trees without links -/

section Linkless

variable (ht : t.IsTree) (hlinks : t.IsLinkless)

include ht hlinks

/-- What is listed in the directory that some names lead to is what stands behind them. -/
lemma listed_iff {dir : Path} (hdir : t.isDir dir = true) {way : List Text} {name : Text}
    (hway : ∀ s ∈ way, Path.IsName s) :
    (∃ place, t.locate (dir.descend way) = .ok place ∧ name ∈ t.names place) ↔
      Path.IsName name ∧ (t.at? (dir.descend (way ++ [name]))).isSome = true := by
  obtain ⟨here, hhere⟩ := exists_locate_of_isDir hdir
  constructor
  · rintro ⟨place, hplace, hlisted⟩
    have hname := ht.isName_of_mem_names hlisted
    obtain ⟨rfl, -⟩ := (FileTree.locate_descend hlinks ht hhere hway).1 hplace
    rw [FileTree.at?_descend hlinks ht hhere (by simpa [or_imp, forall_and] using ⟨hway, hname⟩),
      ← List.append_assoc]
    exact ⟨hname, FileTree.mem_names_iff.1 hlisted⟩
  · rintro ⟨hname, hsome⟩
    rw [FileTree.at?_descend hlinks ht hhere (by simpa [or_imp, forall_and] using ⟨hway, hname⟩),
      ← List.append_assoc] at hsome
    have habove := ht.node?_dropLast hsome
    rw [List.dropLast_concat] at habove
    refine ⟨here ++ way, (FileTree.locate_descend hlinks ht hhere hway).2 ⟨rfl, ?_⟩,
      FileTree.mem_names_iff.2 hsome⟩
    rw [habove]
    rfl

/-- **Which directories a walk comes into.**  Those to which names lead that are all passed. -/
theorem enters_iff (hroot : t.isDir s.root = true) {way : List Text} :
    s.Enters t s.root true way ↔ (∀ name ∈ way, Path.IsName name) ∧
      t.isDir (s.root.descend way) = true ∧
        ∀ above name, above ++ [name] <+: way → s.Passes t above name := by
  induction way using List.reverseRecOn with
  | nil =>
    constructor
    · intro h
      refine ⟨by simp, h.isDir, fun above name hprefix => ?_⟩
      simp at hprefix
    · rintro ⟨-, hdir, -⟩
      exact .here hdir
  | append_singleton way name ih =>
    rw [enters_concat, ih, Bool.true_and, goesInto_iff, forall_prefix_concat]
    constructor
    · rintro ⟨⟨hway, -, hpasses⟩, hlisted, hdir, hlast⟩
      obtain ⟨hname, -⟩ := (listed_iff ht hlinks hroot hway).1 hlisted
      exact ⟨by simpa [or_imp, forall_and] using ⟨hway, hname⟩, hdir, hpasses, hlast⟩
    · rintro ⟨hnames, hdir, hpasses, hlast⟩
      have hway : ∀ s ∈ way, Path.IsName s := fun s hs => hnames s (List.mem_append_left _ hs)
      have hname : Path.IsName name := hnames name (by simp)
      have hlisted := (listed_iff ht hlinks hroot hway).2 ⟨hname, isSome_at?_of_isDir hdir⟩
      exact ⟨⟨hway, isDir_of_listed ht hlisted, hpasses⟩, hlisted, hdir, hlast⟩

/-- A walk over a tree without links finds documents. -/
lemma exists_documents : ∃ files, s.documents t = .ok files := by
  cases hdocuments : s.documents t with
  | ok files => exact ⟨files, rfl⟩
  | error f =>
    obtain ⟨way, other, hne, hway, hother, hsame, -⟩ := exists_of_documents_error ht hdocuments
    have hroot : t.isDir s.root = true := hway.isDir_start
    obtain ⟨here, hhere⟩ := exists_locate_of_isDir hroot
    obtain ⟨place, hplace⟩ := exists_locate_of_isDir hway.isDir
    obtain ⟨heq, -⟩ := (FileTree.locate_descend hlinks ht hhere (hway.isName ht)).1 hplace
    obtain ⟨heq', -⟩ := (FileTree.locate_descend hlinks ht hhere (hother.isName ht)).1
      (hsame ▸ hplace)
    exact absurd (List.append_cancel_left (heq.symm.trans heq')) hne

end Linkless

/-- **Which files are documents.**  In a tree without links, a walk finds documents, in strict order
of their paths: the Markdown files below the root that are not larger than allowed, that match one
of the file patterns if there are any, and on the way to which every name is passed. -/
theorem documents_exactly (s : Scan) {t : FileTree} (ht : t.IsTree) (hlinks : t.IsLinkless) :
    ∃ files, s.documents t = .ok files ∧
      files.Pairwise (fun p q => p.le q = true ∧ q.le p = false) ∧
      ∀ p, p ∈ files ↔ t.isDir s.root = true ∧ ∃ names content, names ≠ [] ∧
        (∀ name ∈ names, Path.IsName name) ∧ p = s.root.descend names ∧
        t.at? p = some (.file content) ∧ content.size ≤ s.maxSize ∧ p.isMarkdown = true ∧
        (s.wanted = [] ∨ ∃ g ∈ s.wanted, g.accepts (List.intercalate ['/'] names) = true) ∧
        ∀ way name, way ++ [name] <+: names → s.Passes t way name := by
  obtain ⟨files, hfiles⟩ := exists_documents (s := s) ht hlinks
  refine ⟨files, hfiles, documents_sorted ht hfiles, fun p => ?_⟩
  obtain ⟨hnodup, rfl⟩ := (documents_ok_iff (Nat.lt_succ_self _)).1 hfiles
  rw [List.mem_mergeSort, List.mem_reverse, List.mem_filterMap]
  constructor
  · rintro ⟨x, hx, hp⟩
    cases x with
    | enter => cases hp
    | take way name =>
      cases hp
      rw [← Path.descend_concat]
      have hnames := isName_of_take_mem_tour ht hx
      obtain ⟨-, henters, hpicks, -⟩ := mem_tour_take.1 hx
      have hroot : t.isDir s.root = true := henters.isDir_start
      obtain ⟨-, -, hway⟩ := (enters_iff ht hlinks hroot).1 henters
      obtain ⟨-, hpasses, htakes⟩ := picks_iff.1 hpicks
      obtain ⟨hmarkdown, hwanted, content, hfile, hsize⟩ :=
        (takes_iff (ne_nil_of_isDir hroot) (by simp) hnames).1 htakes
      exact ⟨hroot, way ++ [name], content, by simp, hnames, rfl, hfile, hsize, hmarkdown, hwanted,
        forall_prefix_concat.2 ⟨hway, hpasses⟩⟩
  · rintro ⟨hroot, names, content, hne, hnames, rfl, hfile, hsize, hmarkdown, hwanted, hpasses⟩
    have htakes := (takes_iff (ne_nil_of_isDir hroot) hne hnames).2
      ⟨hmarkdown, hwanted, content, hfile, hsize⟩
    obtain ⟨way, name, rfl⟩ : ∃ way name, names = way ++ [name] :=
      ⟨_, _, (List.dropLast_append_getLast hne).symm⟩
    rw [forall_prefix_concat] at hpasses
    have hway : ∀ s ∈ way, Path.IsName s := fun s hs => hnames s (List.mem_append_left _ hs)
    have hlisted := (listed_iff ht hlinks hroot hway).2
      ⟨hnames name (by simp), by rw [hfile]; rfl⟩
    have henters : s.Enters t s.root true way :=
      (enters_iff ht hlinks hroot).2 ⟨hway, isDir_of_listed ht hlisted, hpasses.1⟩
    have hpicks : s.picks t (s.root.descend way) name = true :=
      picks_iff.2 ⟨by simp [FileTree.isDir, hfile], hpasses.2, htakes⟩
    have hlength := length_lt_of_nodup (Nat.lt_succ_self _) hnodup henters
    exact ⟨.take way name, mem_tour_take.2 ⟨hlength, henters, hpicks, hlisted⟩,
      by rw [Path.descend_concat]; rfl⟩

/-- A project further below is left out, and a document right below the root is found. -/
theorem documents_exactly_nested :
    let s : Scan := ⟨"/".toList, [], [], [], 10⟩
    let t : FileTree := ⟨[(["y.md".toList], .file ⟨#[66]⟩), (["a".toList], .directory),
      (["a".toList, "b".toList], .directory),
      (["a".toList, "b".toList, "dfm.toml".toList], .file ⟨#[]⟩),
      (["a".toList, "b".toList, "x.md".toList], .file ⟨#[65]⟩)], []⟩
    t.IsTree ∧ t.IsLinkless ∧ ∃ files, s.documents t = .ok files ∧
      "/y.md".toList ∈ files ∧ "/a/b/x.md".toList ∉ files := by
  intro s t
  have ht : t.IsTree := by decide
  have hlinks : t.IsLinkless := by simp [FileTree.IsLinkless, t]
  obtain ⟨files, hfiles, -, hmem⟩ := documents_exactly s ht hlinks
  refine ⟨ht, hlinks, files, hfiles, ?_, fun hnested => ?_⟩
  · have hpasses : s.Passes t [] "y.md".toList := ⟨by decide, by cbv, by simp⟩
    refine (hmem _).2 ⟨by cbv, ["y.md".toList], ⟨#[66]⟩, by simp, by decide, by decide, by cbv,
      by decide, by decide, .inl rfl, ?_⟩
    exact (@forall_prefix_concat _ [] _).2 ⟨by simp, hpasses⟩
  · obtain ⟨-, names, -, -, hnames, hpath, -, -, -, -, hpasses⟩ := (hmem _).1 hnested
    have hway : ["a".toList, "b".toList, "x.md".toList] = names :=
      Path.descend_inj s.root (by decide) hnames (congrArg Path.components hpath)
    have hb := (hpasses ["a".toList] "b".toList (by rw [← hway]; decide)).noSettings (by simp)
      (by cbv)
    have hsettings : Config.find? t (s.root.descend ["a".toList, "b".toList]) =
        some "/a/b/dfm.toml".toList := by cbv
    rw [List.singleton_append, hsettings] at hb
    cases hb

/-- **Projects right below the root.**  A directory right below the root has settings of its own,
and its documents are found all the same. -/
theorem documents_of_nested_project :
    let s : Scan := ⟨"/".toList, [], [], [], 10⟩
    let t : FileTree := ⟨[(["sub".toList], .directory),
      (["sub".toList, "dfm.toml".toList], .file ⟨#[]⟩),
      (["sub".toList, "a.md".toList], .file ⟨#[65]⟩)], []⟩
    t.IsTree ∧ t.IsLinkless ∧ Config.find? t "/sub".toList = some "/sub/dfm.toml".toList ∧
      s.documents t = .ok ["/sub/a.md".toList] := by
  intro s t
  have htour : s.tour t 3 s.root true =
      [.enter [] [], .enter ["sub".toList] ["sub".toList], .take ["sub".toList] "a.md".toList] := by
    have hroot : t.locate s.root = .ok [] ∧ t.isDir s.root = true := ⟨by cbv, by cbv⟩
    have hsub : t.locate (s.root.join "sub".toList) = .ok ["sub".toList] ∧
        t.isDir (s.root.join "sub".toList) = true ∧
          s.goesInto t s.root true "sub".toList = true := ⟨by cbv, by cbv, by cbv⟩
    have hsettings : s.goesInto t (s.root.join "sub".toList) false "dfm.toml".toList = false ∧
        s.picks t (s.root.join "sub".toList) "dfm.toml".toList = false := ⟨by cbv, by cbv⟩
    have ha : s.goesInto t (s.root.join "sub".toList) false "a.md".toList = false ∧
        s.picks t (s.root.join "sub".toList) "a.md".toList = true := ⟨by cbv, by cbv⟩
    have hnames : t.names [] = ["sub".toList] ∧
        t.names ["sub".toList] = ["dfm.toml".toList, "a.md".toList] := ⟨rfl, rfl⟩
    simp only [tour, hroot, hsub, hsettings, ha, hnames, if_true, List.flatMap_cons,
      List.flatMap_nil]
    rfl
  have hdocuments : s.documents t = .ok ["/sub/a.md".toList] := by
    rw [documents_ok_iff (show t.countDirs < 3 by decide), htour]
    exact ⟨by decide, by cbv⟩
  exact ⟨by decide, by simp [FileTree.IsLinkless, t], by cbv, hdocuments⟩

end Scan

end Docmark
