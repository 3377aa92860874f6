import Mathlib
import Docmark.Project.Build
import Docmark.Proofs.FileTree.Parent
import Docmark.Proofs.Html.Targets
import Docmark.Proofs.Inclusion.Moved

/-!
# Documents under relative paths

Over a file tree, an included file is known by its absolute path, but a document by the path that it
is given.  Where this path is relative, so is the directory that links are moved to, and no path
leads from there to an absolute one: every relative link of an included file becomes an absolute
one, also where both files are in one directory.

## Main results

* `FileTree.exists_unmoved` — the paths of a file make documents of one tree.
* `FileTree.relative_source_moves_links` — when they have the same HTML.
* `FileTree.linked_pair_differs` — a link in one directory that is not left as it is.
-/

namespace Docmark

open Docmark.Path

/-! ## Links between two directories -/

section Carried

variable {target source : Path} {t : Text}

lemma isAbsolute_targetSuffix (t : Text) : isAbsolute (targetSuffix t) = false := by
  rw [targetSuffix_eq]
  cases htail : t.dropWhile isPathChar with
  | nil => rfl
  | cons c cs =>
    have hmark : ¬ isPathChar c = true := by
      have hhead := List.head_dropWhile_not isPathChar (by rw [htail]; simp : t.dropWhile isPathChar ≠ [])
      simpa [htail] using hhead
    have hslash : c ≠ '/' := by
      rintro rfl
      exact hmark rfl
    simpa [isAbsolute] using hslash

lemma isAbsolute_of_isRelativeTarget (h : isRelativeTarget t = true) : isAbsolute t = false := by
  cases t with
  | nil => rfl
  | cons c t =>
    have hslash : c ≠ '/' := by
      rintro rfl
      cases h
    simpa [isAbsolute] using hslash

/-- Links that are not relative are carried as they are. -/
lemma carried_of_not_relative (target source : Option Path) (h : isRelativeTarget t = false) :
    carried target source t = t := by
  cases target with
  | none => rfl
  | some target =>
    cases source with
    | none => rfl
    | some source =>
      have hnone : (LinkRebase.between source target).rebase? t = none := by
        rw [LinkRebase.rebase?_eq, h, if_neg Bool.false_ne_true]
      rw [carried, LinkRebase.apply, hnone, Option.getD_none, ite_self]

/-- Links are carried as they are where the directory is the same. -/
lemma carried_of_place_eq (h : source.place = target.place) :
    carried (some target) (some source) t = t := by
  have hid : (LinkRebase.between source target).isIdentity = true := by
    rw [LinkRebase.isIdentity, LinkRebase.between, normalize_eq_iff.2 h]
    exact same_refl _
  rw [carried, if_pos hid]

lemma isAbsolute_normalize_join (hsource : source.isAbsolute = true)
    (ht : isRelativeTarget t = true) :
    (source.join (targetPath t)).normalize.isAbsolute = true := by
  rw [isAbsolute_normalize, place_absolute, isAbsolute_join _ (isAbsolute_targetPath ht), hsource]

/-- From an absolute directory to a relative one, the place that a link leads to is written as an
absolute path. -/
lemma carried_to_relative (htarget : target.isAbsolute = false) (hsource : source.isAbsolute = true)
    (ht : isRelativeTarget t = true) :
    carried (some target) (some source) t =
      (source.join (targetPath t)).normalize.slashed ++ targetSuffix t := by
  have hother : ¬ (LinkRebase.between source target).isIdentity = true := by
    intro hid
    have hcomponents : source.normalize.components = target.normalize.components := by
      simpa [LinkRebase.isIdentity, LinkRebase.between, same] using hid
    have hplace : source.normalize.place = target.normalize.place := by
      rw [place, place, hcomponents]
    rw [place_normalize, place_normalize] at hplace
    have habs := congrArg Place.absolute hplace
    rw [place_absolute, place_absolute, htarget, hsource] at habs
    cases habs
  have hjoin : (source.normalize.join (targetPath t)).normalize =
      (source.join (targetPath t)).normalize :=
    normalize_eq_iff.2 (place_join_congr (place_normalize source) _)
  have habs := isAbsolute_normalize_join hsource ht
  have hbase : target.normalize.isAbsolute = false := by
    rw [isAbsolute_normalize, place_absolute, htarget]
  have hrebase : (LinkRebase.between source target).rebase? t =
      some ((source.join (targetPath t)).normalize.slashed ++ targetSuffix t) := by
    simp only [LinkRebase.rebase?_eq, ht, if_true, LinkRebase.between, hjoin, relativeTo?, habs,
      hbase, Bool.true_eq_false, if_false, Option.map_some]
  rw [carried, if_neg hother, LinkRebase.apply, hrebase, Option.getD_some]

lemma isAbsolute_slashed_append {p : Path} (h : p.isAbsolute = true) (s : Text) :
    isAbsolute (p.slashed ++ s) = true := by
  rw [slashed, components_eq, lead, if_pos h, List.singleton_append, List.map_cons]
  cases p.steps <;> rfl

/-- From an absolute directory to another one, a relative link stays relative. -/
lemma isAbsolute_carried (hkind : target.isAbsolute = source.isAbsolute)
    (ht : isRelativeTarget t = true) :
    isAbsolute (carried (some target) (some source) t) = false := by
  rw [carried]
  split
  · exact isAbsolute_of_isRelativeTarget ht
  rw [LinkRebase.apply]
  cases hrebase : (LinkRebase.between source target).rebase? t with
  | none => exact isAbsolute_of_isRelativeTarget ht
  | some t' =>
    rw [LinkRebase.rebase?_eq, if_pos ht] at hrebase
    obtain ⟨q, hq, rfl⟩ := Option.map_eq_some_iff.1 hrebase
    have habs : (source.normalize.join (targetPath t)).place.absolute = target.place.absolute := by
      rw [place_absolute, place_absolute, isAbsolute_join _ (isAbsolute_targetPath ht),
        isAbsolute_normalize, place_absolute, hkind]
    obtain ⟨cs, hcs, rfl, -⟩ := relativeTo?_place habs hq
    rw [Option.getD_some, slashed_written hcs]
    cases hwritten : written cs with
    | nil => exact isAbsolute_targetSuffix t
    | cons c rest =>
      have hrelative := isAbsolute_written hcs
      rw [hwritten] at hrelative
      exact hrelative

/-- A link is carried alike to an absolute directory and to a relative one only if it is not
relative. -/
lemma carried_relative_eq_iff {absolute relative : Path} (habsolute : absolute.isAbsolute = true)
    (hrelative : relative.isAbsolute = false) (hsource : source.isAbsolute = true) :
    carried (some relative) (some source) t = carried (some absolute) (some source) t ↔
      isRelativeTarget t = false := by
  constructor
  · intro h
    by_contra ht
    rw [Bool.not_eq_false] at ht
    have hkind := isAbsolute_carried (habsolute.trans hsource.symm) ht
    rw [← h, carried_to_relative hrelative hsource ht,
      isAbsolute_slashed_append (isAbsolute_normalize_join hsource ht)] at hkind
    cases hkind
  · intro ht
    rw [carried_of_not_relative _ _ ht, carried_of_not_relative _ _ ht]

end Carried

/-! ## Paths of one file -/

/-- A run that ends with a tree makes a document, as the standard rules render every tree. -/
lemma Engine.exists_markup {e : Engine} {source : Source} {root : Block} {journal : Journal}
    (hstandard : e.renderer = .standard)
    (hprocess : e.process (source.path.map e.canonicalPath).toList Scope.document source.path
      source.content {} = (.ok root, journal)) :
    ∃ r, e.markup source = .ok r ∧ Renderer.standard.render root = .ok r.html := by
  obtain ⟨xs, hxs⟩ := root.exists_blockHtml_standard
  have hhtml : Renderer.standard.render root = .ok (Html.writeAll xs) := by
    rw [Renderer.render, hxs]
    rfl
  exact ⟨_, markup_of_process hprocess (by rw [hstandard, hhtml]), hhtml⟩

namespace FileTree

variable {t : FileTree} {place : Trail} {content : ByteArray}

/-- **The paths of a file make documents of one tree**, with the targets in its included content
moved to the directory of the path. -/
theorem exists_unmoved (ht : t.IsTree) (hlinks : t.IsLinkless)
    (hfile : t.node? place = some (.file content)) {baseDir : Option Path} {e : Engine}
    {rules : List TagRule} (he : e.IsChecking rules) (hresolver : e.resolver = t.resolver baseDir)
    (chain : IncludeChain) (text : Text) :
    ∃ tree, (e.processUnmoved chain Scope.document (some (pathOf place)) text {}).1 = .ok tree ∧
      ∀ p, t.locate p = .ok place → ∃ journal, e.process chain Scope.document (some p) text {} =
        (.ok (tree.mapTargetsAt (movedTo p.parent?) none), journal) := by
  have hplace : t.locate (pathOf place) = .ok place :=
    locate_pathOf hlinks ht (by rw [hfile]; rfl)
  obtain ⟨root, hroot, -⟩ :=
    Engine.process_succeeds he.plain le_rfl Scope.document (some (pathOf place)) text {}
  rw [Engine.process_eq_moved he.plain, map_run] at hroot
  obtain ⟨tree, htree, -⟩ := exists_of_map_ok hroot
  refine ⟨tree, htree, fun p hp => ?_⟩
  have hresolve (target : Path) :
      e.resolver.resolve target (some p) = e.resolver.resolve target (some (pathOf place)) := by
    rw [hresolver]
    exact resolve_congr hlinks ht baseDir hp hplace hfile target
  have hsame := Engine.processUnmoved_alike he chain Scope.document hresolve text {} {}
  rw [Engine.process_eq_moved he.plain, map_run, hsame, htree]
  exact ⟨_, rfl⟩

/-- What is included over a file tree are files of the tree, under the paths of their places. -/
lemma exists_place_of_mem_targetsAt (ht : t.IsTree) {baseDir : Option Path} {e : Engine}
    (he : e.IsPlain) (hresolver : e.resolver = t.resolver baseDir) {chain : IncludeChain}
    {scope : Scope} {file : Option Path} {text : Text} {tree : Block} {j : Journal}
    (htree : (e.processUnmoved chain scope file text j).1 = .ok tree) {path : Path} {target : Text}
    (h : (some path, target) ∈ tree.targetsAt none) :
    ∃ other content, path = pathOf other ∧ t.node? other = some (.file content) ∧
      path.parent? = some (pathOf other.dropLast) := by
  obtain ⟨named, found, hfound, rfl⟩ := Engine.finds_of_mem_targetsAt he htree h
  rw [hresolver] at hfound
  obtain ⟨other, content, hpath, hother⟩ := exists_of_resolve hfound
  refine ⟨other, content, hpath, hother, ?_⟩
  rw [hpath]
  exact parent?_pathOf_of_file ht hother

/-- **Relative paths change links.**  Take the documents that an engine over the files of a tree
makes of a text, under the absolute path of a file and under a relative path that denotes the file.
They are one tree, but for the targets in its included content.  Under the absolute path, the
targets of files in the same directory are left as they are.  Under a relative one, every relative
target of an included file is written as an absolute path, wherever the file is; so the two have the
same HTML only where no included file has a relative link or image. -/
theorem relative_source_moves_links (t : FileTree) (ht : t.IsTree) (hlinks : t.IsLinkless)
    (baseDir : Option Path) (ids : Bool) (flavor : Flavor) (rules : List TagRule) {place : Trail}
    {content : ByteArray} (hfile : t.node? place = some (.file content)) (text : Text) :
    let e := (({ t.engine baseDir with headingIds := ids } : Engine).ofFlavor flavor).checking rules
    let source := pathOf place
    ∃ tree r, (e.processUnmoved [source] Scope.document (some source) text {}).1 = .ok tree ∧
      e.markup ⟨some source, text⟩ = .ok r ∧
      Renderer.standard.render (tree.mapTargetsAt (movedTo source.parent?) none) = .ok r.html ∧
      (∀ path target, (some path, target) ∈ tree.targetsAt none → ∃ other content,
        path = pathOf other ∧ t.node? other = some (.file content) ∧
        (other.dropLast = place.dropLast →
          movedTo source.parent? (some path) target = target) ∧
        ∀ p, t.locate p = .ok place → p.isAbsolute = false → isRelativeTarget target = true →
          movedTo p.parent? (some path) target =
            ((pathOf other.dropLast).join (targetPath target)).normalize.slashed ++
              targetSuffix target) ∧
      ∀ p, t.locate p = .ok place → p.isAbsolute = false → ∃ r',
        e.markup ⟨some p, text⟩ = .ok r' ∧
        Renderer.standard.render (tree.mapTargetsAt (movedTo p.parent?) none) = .ok r'.html ∧
        (r'.html = r.html ↔
          ∀ path target, (some path, target) ∈ tree.targetsAt none →
            isRelativeTarget target = false) := by
  intro e source
  have he : e.IsChecking rules := Engine.ofFlavor_isChecking _ flavor rules
  have hresolver : e.resolver = t.resolver baseDir := rfl
  have hplace : t.locate source = .ok place :=
    locate_pathOf hlinks ht (by rw [hfile]; rfl)
  have hparent : source.parent? = some (pathOf place.dropLast) := parent?_pathOf_of_file ht hfile
  obtain ⟨tree, htree, hdocument⟩ :=
    exists_unmoved ht hlinks hfile he hresolver [source] text
  have hplaces {path : Path} {target : Text} (h : (some path, target) ∈ tree.targetsAt none) :=
    exists_place_of_mem_targetsAt ht he.plain hresolver htree h
  have hrendered {p : Path} (hp : t.locate p = .ok place) : ∃ r, e.markup ⟨some p, text⟩ = .ok r ∧
      Renderer.standard.render (tree.mapTargetsAt (movedTo p.parent?) none) = .ok r.html := by
    obtain ⟨journal, hrun⟩ := hdocument p hp
    have hchain : ((some p).map e.canonicalPath).toList = [source] := by
      show [(t.canonical? p).getD p.normalize] = _
      rw [canonical?, hp]
      rfl
    exact @Engine.exists_markup e ⟨some p, text⟩ _ _ rfl (by rw [hchain, hrun])
  obtain ⟨r, hr, hhtml⟩ := hrendered hplace
  refine ⟨tree, r, htree, hr, hhtml, ?_, ?_⟩
  · intro path target hmem
    obtain ⟨other, content, hpath, hother, hsource⟩ := hplaces hmem
    refine ⟨other, content, hpath, hother, fun hdir => ?_, fun p hp hrelative htarget => ?_⟩
    · rw [movedTo, inFiles, hparent, hsource, hdir]
      exact carried_of_place_eq rfl
    · obtain ⟨dir, hdir, hkind, -⟩ := exists_base_parent? hlinks ht hp hfile
      rw [movedTo, inFiles, hdir, hsource]
      exact carried_to_relative (hkind.trans hrelative) (isAbsolute_pathOf _) htarget
  · intro p hp hrelative
    obtain ⟨dir, hdir, hkind, -⟩ := exists_base_parent? hlinks ht hp hfile
    rw [hrelative] at hkind
    obtain ⟨r', hr', hhtml'⟩ := hrendered hp
    refine ⟨r', hr', hhtml', ?_⟩
    have hsame : r'.html = r.html ↔ tree.mapTargetsAt (movedTo p.parent?) none =
        tree.mapTargetsAt (movedTo source.parent?) none := by
      rw [← Renderer.render_mapTargetsAt_eq_iff, hhtml, hhtml', Except.ok.injEq]
    rw [hsame, Block.mapTargetsAt_eq_iff]
    constructor
    · intro h path target hmem
      obtain ⟨other, content, -, -, hsource⟩ := hplaces hmem
      have hmoved := h _ hmem
      simp only [movedTo, inFiles, hdir, hparent, hsource] at hmoved
      exact (carried_relative_eq_iff (isAbsolute_pathOf _) hkind (isAbsolute_pathOf _)).1 hmoved
    · rintro h ⟨none | path, target⟩ hmem
      · rfl
      · simp only [movedTo, inFiles]
        rw [carried_of_not_relative _ _ (h path target hmem),
          carried_of_not_relative _ _ (h path target hmem)]

/-! ## Two files in one directory -/

/-- The text of a document that includes the file `b.md`. -/
def includingText : Text := "[!include[x](b.md)]\n".toList

/-- A directory with two files, the first of which includes the second, where a link leads to a
third one. -/
def linkedPair : FileTree where
  nodes := [(["p".toList], .directory),
    (["p".toList, "a.md".toList], .file (encode includingText)),
    (["p".toList, "b.md".toList], .file (encode "[l](c.md)\n".toList))]
  workingDir := ["p".toList]

/-- The engine over the two files. -/
def pairEngine : Engine :=
  (({ linkedPair.engine none with headingIds := true } : Engine).ofFlavor .dfm).checking []

lemma linkedPair_isTree : linkedPair.IsTree := by decide

lemma linkedPair_isLinkless : linkedPair.IsLinkless := by
  simp [IsLinkless, linkedPair]

/-- The first of two files under its absolute path and under its name. -/
theorem relative_source_moves_links_pair :
    linkedPair.node? ["p".toList, "a.md".toList] = some (.file (encode includingText)) ∧
      linkedPair.locate "a.md".toList = .ok ["p".toList, "a.md".toList] ∧
      ∃ tree r r', (pairEngine.processUnmoved ["/p/a.md".toList] Scope.document
          (some "/p/a.md".toList) includingText {}).1 = .ok tree ∧
        pairEngine.markup ⟨some "/p/a.md".toList, includingText⟩ = .ok r ∧
        pairEngine.markup ⟨some "a.md".toList, includingText⟩ = .ok r' ∧
        (r'.html = r.html ↔ ∀ path target, (some path, target) ∈ tree.targetsAt none →
          isRelativeTarget target = false) := by
  have hfile : linkedPair.node? ["p".toList, "a.md".toList] =
      some (.file (encode includingText)) := rfl
  have hplace : linkedPair.locate "a.md".toList = .ok ["p".toList, "a.md".toList] := by cbv
  obtain ⟨tree, r, htree, hr, -, -, hrelative⟩ := relative_source_moves_links linkedPair
    linkedPair_isTree linkedPair_isLinkless none true .dfm [] hfile includingText
  obtain ⟨r', hr', -, hsame⟩ := hrelative "a.md".toList hplace rfl
  exact ⟨hfile, hplace, tree, r, r', htree, hr, hr', hsame⟩

/-- A resolver that has one answer at hand. -/
def answering (r : Resolver) {target : Path} {file : Option Path} {found : Resolved}
    (h : r.resolve target file = some found) : Resolver where
  resolve target' file' :=
    if target' = target ∧ file' = file then some found else r.resolve target' file'
  known := r.known
  resolve_known target' file' found' h' := by
    split at h'
    next hsame =>
      obtain ⟨rfl, rfl⟩ := hsame
      exact r.resolve_known _ _ _ (h.trans h')
    next => exact r.resolve_known _ _ _ h'

lemma answering_eq (r : Resolver) {target : Path} {file : Option Path} {found : Resolved}
    (h : r.resolve target file = some found) : answering r h = r := by
  have hresolve : (answering r h).resolve = r.resolve := by
    funext target' file'
    show (if target' = target ∧ file' = file then some found else r.resolve target' file') = _
    split
    next hsame => rw [hsame.1, hsame.2, h]
    next => rfl
  cases r
  simp only [answering, Resolver.mk.injEq, and_true] at hresolve ⊢
  exact hresolve

lemma pair_resolve {p : Path}
    (h : linkedPair.locate (candidate none "b.md".toList (some p)) = .ok ["p".toList, "b.md".toList]) :
    pairEngine.resolver.resolve "b.md".toList (some p) =
      some ⟨"[l](c.md)\n".toList, "/p/b.md".toList⟩ := by
  show linkedPair.resolve none "b.md".toList (some p) = _
  rw [resolve, h]
  show (decode? (encode "[l](c.md)\n".toList)).map _ = _
  rw [decode?_encode]
  rfl

/-- The engine over the two files with two answers at hand: where the included file is, and where
the document is. -/
lemma pairEngine_eq {p : Path}
    (h : pairEngine.resolver.resolve "b.md".toList (some p) =
      some ⟨"[l](c.md)\n".toList, "/p/b.md".toList⟩)
    (hp : pairEngine.canonicalPath p = "/p/a.md".toList) :
    pairEngine = { pairEngine with
      resolver := answering pairEngine.resolver h
      canonicalPath := fun q => if q = p then "/p/a.md".toList else pairEngine.canonicalPath q } := by
  have hcanonical : (fun q => if q = p then "/p/a.md".toList else pairEngine.canonicalPath q) =
      pairEngine.canonicalPath := by
    funext q
    split
    next hq => rw [hq, hp]
    next => rfl
  rw [answering_eq, hcanonical]

/-- **A link is not left as it is** though both files are in one directory, and it does not lead to
where it led: it starts with two slashes, as if a host followed.  Under its absolute path, the same
document has the link as it stands in the included file. -/
theorem linked_pair_differs :
    linkedPair.IsTree ∧ linkedPair.IsLinkless ∧
      linkedPair.locate "/p/a.md".toList = .ok ["p".toList, "a.md".toList] ∧
      linkedPair.locate "a.md".toList = .ok ["p".toList, "a.md".toList] ∧
      pairEngine.markup ⟨some "/p/a.md".toList, includingText⟩ =
        .ok ⟨some "/p/a.md".toList, "<p><a href=\"c.md\">l</a></p>\n".toList, []⟩ ∧
      pairEngine.markup ⟨some "a.md".toList, includingText⟩ =
        .ok ⟨some "a.md".toList, "<p><a href=\"//p/c.md\">l</a></p>\n".toList, []⟩ := by
  refine ⟨linkedPair_isTree, linkedPair_isLinkless, by cbv, by cbv, ?_, ?_⟩
  · rw [pairEngine_eq (p := "/p/a.md".toList) (pair_resolve (by cbv)) (by cbv)]
    decide +kernel
  · rw [pairEngine_eq (p := "a.md".toList) (pair_resolve (by cbv)) (by cbv)]
    decide +kernel

end FileTree

end Docmark
