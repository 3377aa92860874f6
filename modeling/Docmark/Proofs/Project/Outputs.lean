import Mathlib
import Docmark.Project.Build
import Docmark.Proofs.Project.Tour
import Docmark.Proofs.Project.Writing

/-!
# Outputs and sources

The output for a document is written next to it, under its name with another extension.  This module
tells when no output can take the place of a document of a project: the check of the settings looks
at the whole extension that was asked for, but what counts for a document is what stands behind its
last dot.

## Main results

* `Scan.documents_isDocument` — what is found is a document: a Markdown file that is not hidden.
* `Project.outputs_spare_sources` — for which settings outputs leave the documents alone.
* `Project.output_replaces_source` — accepted settings for which they do not.
-/

namespace Docmark

/-! ## Documents -/

/-- A path that denotes a document of a project by its name: not hidden, and with an extension of
Markdown. -/
def Path.IsDocument (p : Path) : Prop :=
  ∃ (dir : Path) (name : Text), Path.IsFileName name ∧ p = dir.join name ∧ p.isMarkdown = true

namespace Path

lemma isMarkdown_iff {p : Path} :
    p.isMarkdown = true ↔ ∃ ext, p.extension? = some ext ∧ ext ∈ markdownExtensions := by
  rw [isMarkdown]
  cases p.extension? <;> simp

/-- What the path of a document is made of. -/
lemma IsDocument.exists_stem {p : Path} (h : p.IsDocument) :
    ∃ (dir : Path) (stem old : Text), IsFileName stem ∧ '.' ∉ old ∧ '/' ∉ old ∧
      p = dir.join (stem ++ '.' :: old) := by
  obtain ⟨dir, name, hname, rfl, hmarkdown⟩ := h
  obtain ⟨old, hold, -⟩ := isMarkdown_iff.1 hmarkdown
  rw [extension?_join dir hname] at hold
  have hsplit : splitExtension name = ((splitExtension name).1, some old) := Prod.ext rfl hold
  obtain ⟨heq, hstem, hdot, hslash⟩ := exists_of_splitExtension hname hsplit
  exact ⟨dir, _, old, hstem, hdot, hslash, congrArg dir.join heq⟩

lemma extension?_of_same {p q : Path} (h : p.same q = true) : p.extension? = q.extension? := by
  have hcomponents : p.components = q.components := by simpa [same] using h
  rw [extension?, extension?, fileName?, fileName?, hcomponents]

end Path

/-! ## Discovery -/

/-- The names in a tree are names: not empty, and without a slash. -/
def FileTree.IsProper (t : FileTree) : Prop := ∀ n ∈ t.nodes, ∀ name ∈ n.1, name ≠ [] ∧ '/' ∉ name

lemma FileTree.IsProper.of_mem_names {t : FileTree} (ht : t.IsProper) {dir : Trail} {name : Text}
    (h : name ∈ t.names dir) : name ≠ [] ∧ '/' ∉ name := by
  obtain ⟨n, hn, hname⟩ := List.mem_filterMap.1 h
  dsimp only at hname
  split at hname
  next => exact ht n hn name (List.mem_of_getLast? hname)
  next => cases hname

namespace Scan

variable {s : Scan} {t : FileTree}

/-- A file that a walk takes is a document. -/
lemma isDocument_of_picks (ht : t.IsProper) {dir : Path} {place : Trail} {name : Text}
    (hname : name ∈ t.names place) (h : s.picks t dir name = true) :
    (dir.join name).IsDocument := by
  obtain ⟨hne, hslash⟩ := ht.of_mem_names hname
  simp only [picks, takes, isSkippedName, Bool.and_eq_true, Bool.not_eq_true', Bool.or_eq_false_iff,
    beq_eq_false_iff_ne] at h
  exact ⟨dir, name, ⟨hne, h.1.1.1.1.1, hslash⟩, rfl, h.2.1.1⟩

lemma walk_isDocument (ht : t.IsProper) (fuel : Nat) {dir : Path} {isRoot : Bool}
    {found found' : Found} (hfound : ∀ p ∈ found.1, p.IsDocument)
    (h : s.walk t fuel dir isRoot found = .ok found') : ∀ p ∈ found'.1, p.IsDocument := by
  induction fuel generalizing dir isRoot found found' with
  | zero => cases h
  | succ fuel ih =>
    rw [walk_succ] at h
    split at h
    next =>
      cases h
      exact hfound
    next place _ =>
      split at h
      next =>
        split at h
        next => cases h
        next =>
          refine foldlM_ok_induction (I := fun found : Found => ∀ p ∈ found.1, p.IsDocument)
            (fun name hname found found' hfound hstep => ?_) (b := (found.1, place :: found.2))
            hfound h
          rw [visit] at hstep
          split at hstep
          next => exact ih hfound hstep
          next =>
            split at hstep
            next hpicks =>
              cases hstep
              exact List.forall_mem_cons.2 ⟨isDocument_of_picks ht hname hpicks, hfound⟩
            next =>
              cases hstep
              exact hfound
      next =>
        cases h
        exact hfound

/-- **What is found is a document.** -/
theorem documents_isDocument (ht : t.IsProper) {files : List Path}
    (h : s.documents t = .ok files) : ∀ p ∈ files, p.IsDocument := by
  obtain ⟨⟨found, entered⟩, hwalk, h⟩ := exists_of_bind_ok h
  cases h
  intro p hp
  exact walk_isDocument ht _ (by simp) hwalk p (List.mem_mergeSort.1 hp)

end Scan

/-! ## Steps that keep something -/

namespace Project

section Keeps

variable {α β : Type} {I : FileTree → Prop}

/-- A step that keeps a property of the tree, whether it succeeds or fails. -/
def Keeps (I : FileTree → Prop) (a : WriteM α) : Prop := ∀ t, I t → I (a t).2

lemma Keeps.pure (x : α) : Keeps I (Pure.pure x : WriteM α) := fun _ ht => ht

lemma Keeps.bind {a : WriteM α} {f : α → WriteM β} (ha : Keeps I a) (hf : ∀ x, Keeps I (f x)) :
    Keeps I (a >>= f) := by
  intro t ht
  have hstep : (a >>= f) t = ExceptT.bindCont f (a t).1 (a t).2 := rfl
  rw [hstep]
  cases (a t).1 with
  | error e => exact ha t ht
  | ok x => exact hf x _ (ha t ht)

lemma Keeps.forIn {f : α → β → WriteM (ForInStep β)} (as : List α)
    (hf : ∀ a ∈ as, ∀ b, Keeps I (f a b)) (b : β) : Keeps I (ForIn.forIn as b f) := by
  induction as generalizing b with
  | nil => exact Keeps.pure b
  | cons a as ih =>
    rw [List.forIn_cons]
    refine (hf a List.mem_cons_self b).bind fun r => ?_
    cases r with
    | done b => exact Keeps.pure b
    | yield b => exact ih (fun a' ha' => hf a' (List.mem_cons_of_mem _ ha')) b

end Keeps

/-! ## Outputs -/

variable {p : Project}

/-- A file name with the extension of a document, or with that of the outputs. -/
def HasOwnExtension (p : Project) (name : Text) : Prop :=
  ∃ ext, (Path.splitExtension name).2 = some ext ∧
    (ext ∈ markdownExtensions ∨ ext = Path.lastPiece p.config.outputExtension)

lemma outputExtension_ne_nil (hvalid : p.config.validate = .ok ()) :
    p.config.outputExtension ≠ [] := by
  intro hnil
  rw [Config.validate, hnil] at hvalid
  cases hvalid

/-- What writing a text does to a tree. -/
lemma write_eq (file : Path) (text : Text) (t : FileTree) :
    write file text t = match t.writeText file text with
      | .ok t' => (.ok (), t')
      | .error fault => (.error (.file fault), t) := by
  have hread : write file text t = (match t.writeText file text with
      | .ok t' => set t'
      | .error fault => throw (.file fault) : WriteM Unit) t := rfl
  rw [hread]
  cases t.writeText file text <;> rfl

section Output

variable (hext : p.config.outputExtension ≠ []) (hslash : '/' ∉ p.config.outputExtension)

include hext hslash

/-- The output for a document is in the same directory, under a name of which the last piece is that
of the extension. -/
lemma exists_of_outputPath {f : Path} (hf : f.IsDocument) :
    ∃ (dir : Path) (name : Text), Path.IsFileName name ∧ p.outputPath f = dir.join name ∧
      (p.outputPath f).extension? = some (Path.lastPiece p.config.outputExtension) := by
  obtain ⟨dir, stem, old, hstem, hdot, hold, rfl⟩ := hf.exists_stem
  refine ⟨dir, stem ++ '.' :: p.config.outputExtension, hstem.append_dot hslash, ?_, ?_⟩
  · exact Path.withExtension_join dir hstem hdot hold hext
  · exact Path.extension?_withExtension dir hstem hdot hold hext hslash

section Spared

variable (hlast : Path.lastPiece p.config.outputExtension ∉ markdownExtensions)

include hlast

/-- An output does not have the extension of a document if the last piece of its own is not one of
Markdown. -/
lemma extension?_outputPath_ne {f g : Path} (hf : f.IsDocument) (hg : g.IsDocument) :
    (p.outputPath f).extension? ≠ g.extension? := by
  obtain ⟨-, -, -, -, hextension⟩ := exists_of_outputPath hext hslash hf
  obtain ⟨-, -, -, -, hmarkdown⟩ := hg
  obtain ⟨e, he, hmem⟩ := Path.isMarkdown_iff.1 hmarkdown
  rw [hextension, he]
  rintro ⟨⟩
  exact hlast hmem

/-- Writing the output for a document keeps the content of every document. -/
lemma write_keeps {f g : Path} (hf : f.IsDocument) (hg : g.IsDocument) (text : Text)
    (content : ByteArray) :
    Keeps (fun t => t.HasNoLink p.HasOwnExtension ∧ t.readBytes g = .ok content)
      (write (p.outputPath f) text) := by
  rintro t ⟨ht, hread⟩
  have hne := extension?_outputPath_ne hext hslash hlast hf hg
  obtain ⟨dir, name, hname, hout, hextension⟩ := exists_of_outputPath hext hslash hf
  obtain ⟨dir', name', hname', rfl, hmarkdown⟩ := hg
  obtain ⟨old, hold, hmem⟩ := Path.isMarkdown_iff.1 hmarkdown
  rw [hout, Path.extension?_join dir hname] at hne hextension
  rw [Path.extension?_join dir' hname'] at hne hold
  have hnames : name ≠ name' := by
    rintro rfl
    exact hne rfl
  have hown : p.HasOwnExtension name := ⟨_, hextension, .inr rfl⟩
  have hown' : p.HasOwnExtension name' := ⟨old, hold, .inl hmem⟩
  rw [hout, write_eq]
  cases hwrite : t.writeText (dir.join name) text with
  | error fault => exact ⟨ht, hread⟩
  | ok t' =>
    exact ⟨ht.writeText hwrite,
      FileTree.readBytes_writeText ht hname hname' hown hown' hnames hwrite hread⟩

/-- Writing outputs keeps the content of every document. -/
lemma writeOutputs_keeps {r : Report} (hr : ∀ o ∈ r, o.path.IsDocument) {g : Path}
    (hg : g.IsDocument) (content : ByteArray) :
    Keeps (fun t => t.HasNoLink p.HasOwnExtension ∧ t.readBytes g = .ok content)
      (p.writeOutputs r) := by
  rw [writeOutputs]
  refine Keeps.bind (fun t ht => ht) fun _ => ?_
  refine Keeps.bind (Keeps.forIn _ (fun o ho b => ?_) _) fun _ => Keeps.pure _
  have hdocument := hr o (List.mem_of_mem_filter ho)
  split
  next doc _ =>
    exact (write_keeps hext hslash hlast hdocument hg doc.html content).bind fun _ => Keeps.pure _
  next => exact Keeps.pure _

end Spared

end Output

lemma exists_of_open {t : FileTree} {root : Path} (h : open_ t root = .ok p) :
    ∃ s : Scan, s.documents t = .ok p.files := by
  obtain ⟨config, -, h⟩ := exists_of_bind_ok h
  obtain ⟨s, -, h⟩ := exists_of_bind_ok h
  obtain ⟨files, hfiles, h⟩ := exists_of_bind_ok h
  cases h
  exact ⟨s, hfiles⟩

/-- **When outputs spare their sources.**  Under accepted settings with an extension without
slashes, no output for a document is a document if and only if the last piece of the extension is
not one of Markdown; and then, in a tree where no link has the extension of a document or of an
output, writing the outputs of any report leaves every document with the content that it has.  So a
project that is opened in such a tree, built and written out has the sources that it had. -/
theorem outputs_spare_sources (p : Project) (hvalid : p.config.validate = .ok ())
    (hslash : '/' ∉ p.config.outputExtension) :
    ((∀ f g : Path, f.IsDocument → g.IsDocument → (p.outputPath f).same g = false) ↔
      Path.lastPiece p.config.outputExtension ∉ markdownExtensions) ∧
    (Path.lastPiece p.config.outputExtension ∉ markdownExtensions →
      ∀ (r : Report) (t : FileTree), (∀ o ∈ r, o.path.IsDocument) →
        t.HasNoLink p.HasOwnExtension → ∀ (g : Path) (content : ByteArray), g.IsDocument →
          t.readBytes g = .ok content → (p.writeOutputs r t).2.readBytes g = .ok content) ∧
    (Path.lastPiece p.config.outputExtension ∉ markdownExtensions →
      ∀ (t : FileTree) (root : Path), t.IsProper → open_ t root = .ok p →
        t.HasNoLink p.HasOwnExtension → ∀ cancelled, ∀ g ∈ p.files, ∀ content : ByteArray,
          t.readBytes g = .ok content →
            (p.writeOutputs (p.build t cancelled) t).2.readBytes g = .ok content) := by
  have hext := outputExtension_ne_nil hvalid
  refine ⟨⟨fun hall hlast => ?_, fun hlast f g hf hg => ?_⟩, ?_, ?_⟩
  · -- the output for `a.md` is a document itself
    have hstem : Path.IsFileName ['a'] := ⟨by decide, by decide, by decide⟩
    have hmd : Path.IsDocument (Path.join [] (['a'] ++ '.' :: "md".toList)) :=
      ⟨[], _, hstem.append_dot (by decide), rfl, by decide⟩
    have hname := hstem.append_dot hslash
    have hout : p.outputPath (Path.join [] (['a'] ++ '.' :: "md".toList)) =
        Path.join [] (['a'] ++ '.' :: p.config.outputExtension) :=
      Path.withExtension_join [] hstem (by decide) (by decide) hext
    have hextension : (Path.join [] (['a'] ++ '.' :: p.config.outputExtension)).extension? =
        some (Path.lastPiece p.config.outputExtension) := by
      rw [Path.extension?_join [] hname, Path.splitExtension_append hstem]
    have hself := hall _ _ hmd ⟨[], _, hname, rfl, Path.isMarkdown_iff.2 ⟨_, hextension, hlast⟩⟩
    rw [hout] at hself
    simp [Path.same] at hself
  · by_contra hsame
    rw [Bool.not_eq_false] at hsame
    exact extension?_outputPath_ne hext hslash hlast hf hg (Path.extension?_of_same hsame)
  · intro hlast r t hr ht g content hg hread
    exact (writeOutputs_keeps hext hslash hlast hr hg content t ⟨ht, hread⟩).2
  · intro hlast t root hproper hopen ht cancelled g hg content hread
    obtain ⟨s, hfiles⟩ := exists_of_open hopen
    have hdocuments := Scan.documents_isDocument hproper hfiles
    have hbuilt : ∀ o ∈ p.build t cancelled, o.path.IsDocument := by
      intro o ho
      obtain ⟨f, hf, rfl⟩ := List.mem_map.1 ho
      exact hdocuments f hf
    exact (writeOutputs_keeps hext hslash hlast hbuilt (hdocuments g hg) content t ⟨ht, hread⟩).2

/-- The default settings spare a document next to the one that is written. -/
theorem outputs_spare_sources_html :
    let p : Project := ⟨[], {}, []⟩
    let a := Path.join [] "a.md".toList
    let b := Path.join "docs".toList "b.md".toList
    let t : FileTree := ⟨[(["docs".toList], .directory),
      (["docs".toList, "b.md".toList], .file (FileTree.encode ['B']))], []⟩
    let r : Report := [⟨a, .ok ⟨a, ['A'], []⟩⟩]
    p.config.validate = .ok () ∧ '/' ∉ p.config.outputExtension ∧ (p.outputPath a).same b = false ∧
      (p.writeOutputs r t).2.readBytes b = .ok (FileTree.encode ['B']) := by
  intro p a b t r
  have hvalid : p.config.validate = .ok () := rfl
  have hslash : '/' ∉ p.config.outputExtension := by decide
  have hlast : Path.lastPiece p.config.outputExtension ∉ markdownExtensions := by decide
  have ha : a.IsDocument := ⟨[], "a.md".toList, ⟨by decide, by decide, by decide⟩, rfl, by decide⟩
  have hb : b.IsDocument :=
    ⟨"docs".toList, "b.md".toList, ⟨by decide, by decide, by decide⟩, rfl, by decide⟩
  have hread : t.readBytes b = .ok (FileTree.encode ['B']) := by
    have hpieces : splitOn '/' b = ["docs".toList, "b.md".toList] := by decide
    refine FileTree.readBytes_ok.2 ⟨["docs".toList, "b.md".toList], ?_, rfl⟩
    rw [FileTree.locate, FileTree.find, if_neg (by decide), hpieces]
    simp [FileTree.follow, FileTree.node?, t, Path.isAbsolute, List.lookup_cons]
  have ht : t.HasNoLink p.HasOwnExtension := by
    intro place name target _
    simp only [t, FileTree.node?, List.lookup_cons, List.lookup_nil]
    repeat' split
    all_goals simp
  obtain ⟨hpaths, hwrites, -⟩ := outputs_spare_sources p hvalid hslash
  refine ⟨hvalid, hslash, hpaths.2 hlast a b ha hb, ?_⟩
  exact hwrites hlast r t (by simpa [r] using ha) ht b _ hb hread

/-- **An output may replace a source.**  The extension `x.md` is accepted, and the output for `a.md`
is `a.x.md`, which may be a document of the same project. -/
theorem output_replaces_source :
    let p : Project := ⟨[], { outputExtension := "x.md".toList }, []⟩
    p.config.validate = .ok () ∧ Path.IsDocument "a.md".toList ∧ Path.IsDocument "a.x.md".toList ∧
      p.outputPath "a.md".toList = "a.x.md".toList := by
  refine ⟨rfl, ⟨[], "a.md".toList, ⟨by decide, by decide, by decide⟩, rfl, by decide⟩,
    ⟨[], "a.x.md".toList, ⟨by decide, by decide, by decide⟩, rfl, by decide⟩, by decide⟩

end Project

end Docmark
