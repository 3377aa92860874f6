import Mathlib
import Docmark.Proofs.FileTree.Entry
import Docmark.Proofs.Project.Discovery
import Docmark.Proofs.Project.Outputs

/-!
# Stems of documents

The output for a document has the name of the document with another extension.  A document may have
one of two extensions, so two documents of one directory with the same stem have one output between
them.  That is the only way in which outputs come together: documents with different stems, or in
different directories, have outputs of their own, since a walk does not come into one directory by
two ways.

## Main results

* `Scan.exists_foundAt` — where the documents of a walk were found.
* `Scan.FoundAt.sameStem_iff`, `Scan.FoundAt.same_iff`, `Scan.FoundAt.place_iff` — two documents
  have the same stem, the same output, or one place for their outputs, if they were found under one
  stem in one directory.
-/

namespace Docmark

/-- Two paths of Markdown files that differ in their extensions at most. -/
def Path.SameStem (f g : Path) : Prop :=
  ∃ (dir : Path) (stem old old' : Text), IsFileName stem ∧ old ∈ markdownExtensions ∧
    old' ∈ markdownExtensions ∧ f = dir.join (stem ++ '.' :: old) ∧
      g = dir.join (stem ++ '.' :: old')

lemma notMem_markdownExtension {ext : Text} (h : ext ∈ markdownExtensions) :
    '.' ∉ ext ∧ '/' ∉ ext := by
  revert ext
  decide

/-! ## Where documents are found -/

namespace Scan

variable {s : Scan} {t : FileTree}

/-- Where a document was found: in a directory that the walk came into, under a stem with an
extension of Markdown. -/
structure FoundAt (s : Scan) (t : FileTree) (f : Path) (way : List Text) (place : Trail)
    (stem : Text) : Prop where
  enters : s.Enters t s.root true way
  isDirAt : t.IsDirAt (s.root.descend way) place
  isFileName : Path.IsFileName stem
  path : ∃ old ∈ markdownExtensions, f = (s.root.descend way).join (stem ++ '.' :: old)

/-- Every document was found somewhere. -/
lemma exists_foundAt (ht : t.IsTree) {files : List Path} (h : s.documents t = .ok files) {f : Path}
    (hf : f ∈ files) : ∃ way place stem, s.FoundAt t f way place stem := by
  obtain ⟨-, rfl⟩ := (documents_ok_iff (Nat.lt_succ_self _)).1 h
  rw [List.mem_mergeSort, List.mem_reverse, List.mem_filterMap] at hf
  obtain ⟨x, hx, hfile⟩ := hf
  cases x with
  | enter => cases hfile
  | take way name =>
    cases hfile
    obtain ⟨-, henters, hpicks, place, hplace, hname⟩ := mem_tour_take.1 hx
    simp only [picks, takes, Bool.and_eq_true, Bool.not_eq_true'] at hpicks
    obtain ⟨⟨⟨hskipped, -⟩, -⟩, ⟨hmarkdown, -⟩, -⟩ := hpicks
    have hfile : Path.IsFileName name := by
      obtain ⟨hne, -, -, hslash⟩ := ht.isName_of_mem_names hname
      simp only [isSkippedName, Bool.or_eq_false_iff, beq_eq_false_iff_ne] at hskipped
      exact ⟨hne, hskipped.1.1, hslash⟩
    obtain ⟨old, hold, hmem⟩ := Path.isMarkdown_iff.1 hmarkdown
    rw [Path.extension?_join _ hfile] at hold
    obtain ⟨heq, hstem, -, -⟩ := Path.exists_of_splitExtension hfile (Prod.ext rfl hold)
    exact ⟨way, place, _, henters, ⟨hplace, node?_of_isDir hplace henters.isDir⟩, hstem, old, hmem,
      congrArg _ heq⟩

/-- A walk that finds documents comes into a directory by one way. -/
lemma eq_of_enters (h : ∃ files, s.documents t = .ok files) {way way' : List Text} {place : Trail}
    (hway : s.Enters t s.root true way) (hway' : s.Enters t s.root true way')
    (hplace : t.locate (s.root.descend way) = .ok place)
    (hplace' : t.locate (s.root.descend way') = .ok place) : way = way' := by
  obtain ⟨files, hfiles⟩ := h
  obtain ⟨hnodup, -⟩ := (documents_ok_iff (Nat.lt_succ_self _)).1 hfiles
  have hlength {way : List Text} (hway : s.Enters t s.root true way) :
      way.length < t.countDirs + 1 := length_lt_of_nodup (Nat.lt_succ_self _) hnodup hway
  exact eq_of_enter_mem_tour hnodup (mem_tour_enter.2 ⟨hlength hway, hway, hplace⟩)
    (mem_tour_enter.2 ⟨hlength hway', hway', hplace'⟩)

namespace FoundAt

variable {f g : Path} {way way' : List Text} {place place' : Trail} {stem stem' : Text}
  (hf : s.FoundAt t f way place stem) (hg : s.FoundAt t g way' place' stem')

include hf

/-- The output for a document is in its directory, under its stem. -/
lemma outputPath {p : Project} (hext : p.config.outputExtension ≠ []) :
    p.outputPath f = (s.root.descend way).join (stem ++ '.' :: p.config.outputExtension) := by
  obtain ⟨old, hold, rfl⟩ := hf.path
  obtain ⟨hdot, hslash⟩ := notMem_markdownExtension hold
  exact Path.withExtension_join _ hf.isFileName hdot hslash hext

include hg

/-- Paths that end in the same name below directories of a walk come from one directory. -/
lemma eq_of_components (ht : t.IsTree) {name name' : Text} (hname : Path.IsName name)
    (hname' : Path.IsName name')
    (h : ((s.root.descend way).join name).components =
      ((s.root.descend way').join name').components) : way = way' ∧ name = name' := by
  rw [← Path.descend_concat, ← Path.descend_concat] at h
  have hnames {way : List Text} (hway : s.Enters t s.root true way) {name : Text}
      (hname : Path.IsName name) : ∀ piece ∈ way ++ [name], Path.IsName piece := by
    simpa [or_imp, forall_and] using ⟨hway.isName ht, hname⟩
  have hways := Path.descend_inj s.root (hnames hf.enters hname) (hnames hg.enters hname') h
  simpa using List.append_inj' hways rfl

/-- Documents have the same stem if they were found under one, in one directory. -/
lemma sameStem_iff (ht : t.IsTree) : f.SameStem g ↔ way = way' ∧ stem = stem' := by
  obtain ⟨old, hold, hfpath⟩ := hf.path
  obtain ⟨old', hold', hgpath⟩ := hg.path
  constructor
  · rintro ⟨dir, stem₀, e, e', hstem₀, he, he', hfdir, hgdir⟩
    have hname {stem ext : Text} (hstem : Path.IsFileName stem) (hmem : ext ∈ markdownExtensions) :
        Path.IsName (stem ++ '.' :: ext) :=
      (hstem.append_dot (notMem_markdownExtension hmem).2).isName
    have hstems {stem stem' ext ext' : Text} (hstem : Path.IsFileName stem)
        (hstem' : Path.IsFileName stem') (hmem : ext ∈ markdownExtensions)
        (hmem' : ext' ∈ markdownExtensions) (h : stem ++ '.' :: ext = stem' ++ '.' :: ext') :
        stem = stem' := by
      have hsplit := Path.splitExtension_of_notMem hstem (notMem_markdownExtension hmem).1
      rw [h, Path.splitExtension_of_notMem hstem' (notMem_markdownExtension hmem').1] at hsplit
      exact (Prod.ext_iff.1 hsplit).1.symm
    have hfparts := congrArg Path.components (hfpath.symm.trans hfdir)
    have hgparts := congrArg Path.components (hgpath.symm.trans hgdir)
    rw [Path.components_join _ (hname hf.isFileName hold),
      Path.components_join _ (hname hstem₀ he)] at hfparts
    rw [Path.components_join _ (hname hg.isFileName hold'),
      Path.components_join _ (hname hstem₀ he')] at hgparts
    obtain ⟨hfdirs, hfnames⟩ := List.append_inj' hfparts rfl
    obtain ⟨hgdirs, hgnames⟩ := List.append_inj' hgparts rfl
    refine ⟨s.root.descend_inj (hf.enters.isName ht) (hg.enters.isName ht)
      (hfdirs.trans hgdirs.symm), ?_⟩
    rw [hstems hf.isFileName hstem₀ hold he (by simpa using hfnames),
      hstems hg.isFileName hstem₀ hold' he' (by simpa using hgnames)]
  · rintro ⟨rfl, rfl⟩
    exact ⟨_, stem, old, old', hf.isFileName, hold, hold', hfpath, hgpath⟩

/-- The places of two outputs are one if the documents share an output. -/
theorem place_iff (h : ∃ files, s.documents t = .ok files) {ext : Text} :
    place ++ [stem ++ '.' :: ext] = place' ++ [stem' ++ '.' :: ext] ↔
      way = way' ∧ stem = stem' := by
  constructor
  · intro heq
    obtain ⟨rfl, hname⟩ := List.append_inj' heq rfl
    exact ⟨eq_of_enters h hf.enters hg.enters hf.isDirAt.located hg.isDirAt.located,
      List.append_cancel_right (List.singleton_inj.1 hname)⟩
  · rintro ⟨rfl, rfl⟩
    rw [Except.ok.inj (hf.isDirAt.located.symm.trans hg.isDirAt.located)]

variable {p : Project} (hext : p.config.outputExtension ≠ [])
  (hslash : '/' ∉ p.config.outputExtension)

include hext hslash

/-- **Documents share an output** if they were found under one stem, in one directory. -/
theorem same_iff (ht : t.IsTree) :
    (p.outputPath f).same (p.outputPath g) = true ↔ way = way' ∧ stem = stem' := by
  rw [hf.outputPath hext, hg.outputPath hext, Path.same, beq_iff_eq]
  constructor
  · intro h
    obtain ⟨hway, hname⟩ := eq_of_components hf hg ht (hf.isFileName.append_dot hslash).isName
      (hg.isFileName.append_dot hslash).isName h
    exact ⟨hway, List.append_cancel_right hname⟩
  · rintro ⟨rfl, rfl⟩
    rfl

end FoundAt

end Scan

end Docmark
