import Mathlib
import Docmark.Proofs.Project.Stem

/-!
# Pages that stay

Outputs are written one after the other, and what is written last stays.  So a page is lost for each
two documents with the same stem that were built, while the count of outputs is that of the
documents.

## Main results

* `Project.writeOutputs_run` — what writing outputs does to a tree, and what is counted.
* `Project.outputs_by_stem` — for which reports every page is there, and the count is that of files.
* `Project.stem_shared` — two documents of which only one has a page.
-/

namespace Docmark

namespace Project

variable {p : Project} {t t' : FileTree}

/-! ## Loops -/

/-- What holds before a loop and is kept by each of its steps that succeed holds after the loop,
unless there is a first step that fails. -/
lemma forIn_run {α : Type} {I : List α → FileTree → Prop} {F : List α → α → Fault → FileTree → Prop}
    {as : List α} {f : α → WriteM (ForInStep PUnit)}
    (hstep : ∀ done a rest, as = done ++ a :: rest → ∀ t, I done t →
      (∃ e t', f a t = (.error e, t') ∧ F done a e t') ∨
        ∃ t', f a t = (.ok (.yield ⟨⟩), t') ∧ I (done ++ [a]) t')
    (hstart : I [] t) :
    (∃ t', (ForIn.forIn as ⟨⟩ (fun a _ => f a) : WriteM PUnit) t = (.ok ⟨⟩, t') ∧ I as t') ∨
      ∃ done a rest e t', as = done ++ a :: rest ∧ F done a e t' ∧
        (ForIn.forIn as ⟨⟩ (fun a _ => f a) : WriteM PUnit) t = (.error e, t') := by
  -- on what is left of the list, where `I` holds of what was done
  have hloop : ∀ rest done t, as = done ++ rest → I done t →
      (∃ t', (ForIn.forIn rest ⟨⟩ (fun a _ => f a) : WriteM PUnit) t = (.ok ⟨⟩, t') ∧ I as t') ∨
        ∃ done a rest' e t', as = done ++ a :: rest' ∧ F done a e t' ∧
          (ForIn.forIn rest ⟨⟩ (fun a _ => f a) : WriteM PUnit) t = (.error e, t') := by
    intro rest
    induction rest with
    | nil =>
      intro done t has hI
      rw [List.append_nil] at has
      exact .inl ⟨t, rfl, has ▸ hI⟩
    | cons a rest ih =>
      intro done t has hI
      rw [List.forIn_cons]
      obtain ⟨e, t', hfail, hF⟩ | ⟨t', hok, hI⟩ := hstep done a rest has t hI
      · exact .inr ⟨done, a, rest, e, t', has, hF, run_bind_of_error hfail⟩
      · rw [run_bind_of_ok hok]
        exact ih (done ++ [a]) t' (by rw [has, List.append_cons]) hI
  exact hloop as [] t rfl hstart

/-! ## Where outputs go -/

/-- The output for a file goes to a place: that of its name in a directory, where no link stands. -/
structure GoesTo (p : Project) (t : FileTree) (f : Path) (out : Trail) : Prop where
  entry : ∃ dir place name, t.IsDirAt dir place ∧ Path.IsFileName name ∧
    p.outputPath f = dir.join name ∧ out = place ++ [name]
  noLink : ∀ target, t.node? out ≠ some (.link target)

namespace GoesTo

variable {f g : Path} {out out' : Trail}

lemma find (h : p.GoesTo t f out) : t.find true (p.outputPath f) = .ok out := by
  obtain ⟨⟨dir, place, name, hdir, hname, hpath, rfl⟩, hlink⟩ := h
  rw [hpath]
  exact FileTree.find_entry hdir hname hlink (.inl rfl)

lemma ne_nil (h : p.GoesTo t f out) : out ≠ [] := by
  obtain ⟨⟨dir, place, name, -, -, -, rfl⟩, -⟩ := h
  simp

/-- What was put where an output goes is found and read there. -/
lemma read {text : Text} (h : p.GoesTo t f out)
    (hfile : t.node? out = some (.file (FileTree.encode text))) :
    t.locate (p.outputPath f) = .ok out ∧ t.readText (p.outputPath f) = .ok text := by
  obtain ⟨⟨dir, place, name, hdir, hname, hpath, rfl⟩, hlink⟩ := h
  rw [hpath]
  exact ⟨FileTree.find_entry hdir hname hlink (.inr (by rw [hfile]; rfl)),
    FileTree.readText_entry hdir hname hfile⟩

lemma isDir_iff (h : p.GoesTo t f out) :
    t.isDir (p.outputPath f) = true ↔ t.node? out = some .directory := by
  constructor
  · intro hdir
    obtain ⟨q, hq⟩ := Scan.exists_locate_of_isDir hdir
    have hnode := Scan.node?_of_isDir hq hdir
    rwa [Except.ok.inj ((FileTree.find_of_locate hq).symm.trans h.find)] at hnode
  · intro hnode
    obtain ⟨⟨dir, place, name, hdir, hname, hpath, rfl⟩, hlink⟩ := h
    have hlocate : t.locate (p.outputPath f) = .ok (place ++ [name]) := by
      rw [hpath]
      exact FileTree.find_entry hdir hname hlink (.inr (by rw [hnode]; rfl))
    simp only [FileTree.isDir, FileTree.at?, hlocate, hnode]

/-- One step: an output is written where it goes, unless a directory is there. -/
lemma write_eq (h : p.GoesTo t f out) (text : Text) :
    write (p.outputPath f) text t = if t.node? out = some .directory
      then (.error (.file .isADirectory), t)
      else (.ok ⟨⟩, t.put out (.file (FileTree.encode text))) := by
  rw [Project.write_eq, FileTree.writeText, h.find]
  simp only [bind, Except.bind]
  cases hnode : t.node? out with
  | none => rfl
  | some node => cases node <;> rfl

/-- One step: when an output was written, others go where they went. -/
lemma put (h : p.GoesTo t f out) (hnode : t.node? out ≠ some .directory) (text : Text)
    (hg : p.GoesTo t g out') : p.GoesTo (t.put out (.file (FileTree.encode text))) g out' := by
  obtain ⟨⟨dir, place, name, hdir, hname, hpath, rfl⟩, hlink⟩ := hg
  refine ⟨⟨dir, place, name, hdir.put hnode h.noLink _, hname, hpath, rfl⟩, fun target => ?_⟩
  rw [FileTree.node?_put _ h.ne_nil]
  split
  · simp
  · exact hlink target

end GoesTo

/-- The place where the output for a file goes. -/
def outputPlace (p : Project) (t : FileTree) (f : Path) : Trail :=
  (t.find true (p.outputPath f)).toOption.getD []

lemma GoesTo.outputPlace_eq {f : Path} {out : Trail} (h : p.GoesTo t f out) :
    p.outputPlace t f = out := by
  rw [outputPlace, h.find]
  rfl

/-- The outputs of the documents that were built, and the places where they go. -/
def pages (p : Project) (t : FileTree) (r : Report) : List (Trail × Text) :=
  r.filterMap fun o => o.result.toOption.map fun doc => (p.outputPlace t o.path, doc.html)

lemma pages_append (r r' : Report) : p.pages t (r ++ r') = p.pages t r ++ p.pages t r' :=
  List.filterMap_append

lemma pages_singleton {o : Outcome} {doc : Rendered} (h : o.result = .ok doc) :
    p.pages t [o] = [(p.outputPlace t o.path, doc.html)] := by
  rw [pages, List.filterMap_cons_some (by rw [h]; rfl), List.filterMap_nil]

lemma pages_filter (r : Report) : p.pages t (r.filter (·.result.isOk)) = p.pages t r := by
  rw [pages, List.filterMap_filter]
  refine List.filterMap_congr fun o _ => ?_
  cases o.result <;> rfl

lemma exists_of_isOk {o : Outcome} (h : o.result.isOk = true) : ∃ doc, o.result = .ok doc := by
  cases hresult : o.result with
  | ok doc => exact ⟨doc, rfl⟩
  | error =>
    rw [hresult] at h
    cases h

lemma map_fst_pages (r : Report) :
    (p.pages t r).map Prod.fst =
      (r.filter (·.result.isOk)).map fun o => p.outputPlace t o.path := by
  rw [← pages_filter, pages, List.map_filterMap, ← List.filterMap_eq_map]
  refine List.filterMap_congr fun o ho => ?_
  obtain ⟨doc, hresult⟩ := exists_of_isOk (List.mem_filter.1 ho).2
  rw [hresult]
  rfl

/-! ## Writing -/

/-- What some documents that were built have changed: their outputs are in the places where they go
in the tree as it was, where no directory is, put there one after the other. -/
structure Wrote (p : Project) (t : FileTree) (done : Report) (k : FileTree) : Prop where
  eq_putAll : k = t.putAll (p.pages t done)
  goesTo : ∀ f out, p.GoesTo t f out → p.GoesTo k f out
  directory_iff : ∀ q, k.node? q = some .directory ↔ t.node? q = some .directory
  free : ∀ o ∈ done, t.node? (p.outputPlace t o.path) ≠ some .directory

lemma Wrote.nil : p.Wrote t [] t :=
  ⟨rfl, fun _ _ h => h, fun _ => Iff.rfl, fun _ ho => nomatch ho⟩

/-- One document more. -/
lemma Wrote.concat {k : FileTree} {done : Report} {o : Outcome} {doc : Rendered}
    (h : p.Wrote t done k) (hresult : o.result = .ok doc)
    (hgo : p.GoesTo t o.path (p.outputPlace t o.path))
    (hfree : t.node? (p.outputPlace t o.path) ≠ some .directory) :
    p.Wrote t (done ++ [o])
      (k.put (p.outputPlace t o.path) (.file (FileTree.encode doc.html))) where
  eq_putAll := by
    rw [h.eq_putAll, pages_append, pages_singleton hresult, FileTree.putAll, FileTree.putAll,
      List.foldl_append]
    rfl
  goesTo f out hf := (h.goesTo _ _ hgo).put (mt (h.directory_iff _).1 hfree) _ (h.goesTo f out hf)
  directory_iff q := by
    rw [FileTree.node?_put _ hgo.ne_nil, ← h.directory_iff q]
    split
    next heq => simpa [heq, h.directory_iff] using hfree
    next => rfl
  free := by simpa [or_imp, forall_and] using ⟨h.free, hfree⟩

/-- The step for a document: writes its output if it was built. -/
def writeStep (p : Project) (o : Outcome) : WriteM (ForInStep PUnit) :=
  match o.result with
  | .ok doc => write (p.outputPath o.path) doc.html >>= fun _ => pure (.yield ⟨⟩)
  | .error _ => pure (.yield ⟨⟩)

/-- Writing outputs is a loop with a step for each document that was built. -/
lemma writeOutputs_eq_forIn (hvalid : p.config.validate = .ok ()) (r : Report) :
    p.writeOutputs r =
      ForIn.forIn (r.filter (·.result.isOk)) ⟨⟩ (fun o _ => p.writeStep o) >>=
        fun _ => pure (r.filter (·.result.isOk)).length := by
  rw [writeOutputs, hvalid]
  rfl

/-- One step: the output is written where it goes, unless a directory is there. -/
lemma Wrote.writeStep {k : FileTree} {done : Report} {o : Outcome} (h : p.Wrote t done k)
    (hgo : p.GoesTo t o.path (p.outputPlace t o.path)) (hok : o.result.isOk = true) :
    (t.node? (p.outputPlace t o.path) = some .directory ∧
      p.writeStep o k = (.error (.file .isADirectory), k)) ∨
    ∃ k', p.writeStep o k = (.ok (.yield ⟨⟩), k') ∧ p.Wrote t (done ++ [o]) k' := by
  obtain ⟨doc, hresult⟩ := exists_of_isOk hok
  have hwrite := (h.goesTo _ _ hgo).write_eq doc.html
  simp only [h.directory_iff] at hwrite
  rw [Project.writeStep, hresult]
  by_cases hdir : t.node? (p.outputPlace t o.path) = some .directory
  · rw [if_pos hdir] at hwrite
    exact .inl ⟨hdir, run_bind_of_error hwrite⟩
  · rw [if_neg hdir] at hwrite
    exact .inr ⟨_, run_bind_of_ok hwrite, h.concat hresult hgo hdir⟩

/-- **What writing does.**  All outputs are written and counted, or there is a first one that goes
where a directory is, and only those before it are written. -/
theorem writeOutputs_run {r : Report} (hvalid : p.config.validate = .ok ())
    (hgo : ∀ o ∈ r, p.GoesTo t o.path (p.outputPlace t o.path)) :
    (∃ t', p.Wrote t (r.filter (·.result.isOk)) t' ∧
      p.writeOutputs r t = (.ok (r.filter (·.result.isOk)).length, t')) ∨
    ∃ done o rest t', r.filter (·.result.isOk) = done ++ o :: rest ∧ p.Wrote t done t' ∧
      t.node? (p.outputPlace t o.path) = some .directory ∧
        p.writeOutputs r t = (.error (.file .isADirectory), t') := by
  rw [writeOutputs_eq_forIn hvalid]
  have hstep (done : Report) (o : Outcome) (rest : Report)
      (h : r.filter (·.result.isOk) = done ++ o :: rest) (k : FileTree) (hk : p.Wrote t done k) :
      (∃ e k', p.writeStep o k = (.error e, k') ∧ e = .file .isADirectory ∧ p.Wrote t done k' ∧
        t.node? (p.outputPlace t o.path) = some .directory) ∨
      ∃ k', p.writeStep o k = (.ok (.yield ⟨⟩), k') ∧ p.Wrote t (done ++ [o]) k' := by
    have ho : o ∈ r.filter (·.result.isOk) := by simp [h]
    obtain ⟨ho, hok⟩ := List.mem_filter.1 ho
    refine (hk.writeStep (hgo o ho) hok).imp_left ?_
    rintro ⟨hdir, hfail⟩
    exact ⟨_, k, hfail, rfl, hk, hdir⟩
  obtain ⟨t', hloop, hwrote⟩ | ⟨done, o, rest, e, t', h, ⟨rfl, hwrote, hdir⟩, hloop⟩ :=
    forIn_run hstep Wrote.nil
  · exact .inl ⟨t', hwrote, run_bind_of_ok hloop⟩
  · exact .inr ⟨done, o, rest, t', h, hwrote, hdir, run_bind_of_error hloop⟩

/-! ## What was written -/

/-- The files that hold outputs of documents that were built. -/
def written (p : Project) (r : Report) (t : FileTree) : Set Trail :=
  {place | ∃ o ∈ r, o.result.isOk = true ∧ t.locate (p.outputPath o.path) = .ok place}

section Run

variable {r : Report} (hvalid : p.config.validate = .ok ())
  (hgo : ∀ o ∈ r, p.GoesTo t o.path (p.outputPlace t o.path))

include hvalid hgo

lemma wrote_of_writeOutputs {n : Nat} (h : p.writeOutputs r t = (.ok n, t')) :
    n = (r.filter (·.result.isOk)).length ∧ p.Wrote t (r.filter (·.result.isOk)) t' := by
  obtain ⟨k, hwrote, hok⟩ | ⟨-, -, -, k, -, -, -, hfail⟩ := writeOutputs_run hvalid hgo
  · cases h.symm.trans hok
    exact ⟨rfl, hwrote⟩
  · cases h.symm.trans hfail

/-- Writing succeeds if no directory is where an output goes. -/
lemma exists_writeOutputs_iff :
    (∃ n t', p.writeOutputs r t = (.ok n, t')) ↔
      ∀ o ∈ r, o.result.isOk = true → t.isDir (p.outputPath o.path) = false := by
  have hisDir {o : Outcome} (ho : o ∈ r) : t.isDir (p.outputPath o.path) = false ↔
      t.node? (p.outputPlace t o.path) ≠ some .directory := by
    rw [← Bool.not_eq_true, (hgo o ho).isDir_iff]
  obtain ⟨k, hwrote, hok⟩ | ⟨done, o, rest, k, h, -, hdir, hfail⟩ := writeOutputs_run hvalid hgo
  · exact iff_of_true ⟨_, k, hok⟩ fun o ho hresult =>
      (hisDir ho).2 (hwrote.free o (List.mem_filter.2 ⟨ho, hresult⟩))
  · have ho : o ∈ r.filter (·.result.isOk) := by simp [h]
    obtain ⟨ho, hresult⟩ := List.mem_filter.1 ho
    refine iff_of_false ?_ fun hfree => (hisDir ho).1 (hfree o ho hresult) hdir
    rintro ⟨n, t', hok⟩
    cases hok.symm.trans hfail

section Written

omit hvalid

variable (h : p.Wrote t (r.filter (·.result.isOk)) t')

include h

lemma Wrote.eq_putAll_pages : t' = t.putAll (p.pages t r) ∧ ∀ page ∈ p.pages t r, page.1 ≠ [] := by
  refine ⟨by rw [h.eq_putAll, pages_filter], fun page hpage => ?_⟩
  have hplace := List.mem_map_of_mem (f := Prod.fst) hpage
  rw [map_fst_pages] at hplace
  obtain ⟨o, ho, hout⟩ := List.mem_map.1 hplace
  rw [← hout]
  exact (hgo o (List.mem_of_mem_filter ho)).ne_nil

/-- The files with outputs are in the places where the outputs go. -/
lemma Wrote.written_eq :
    p.written r t' =
      ((r.filter (·.result.isOk)).map fun o => p.outputPlace t o.path).toFinset := by
  obtain ⟨rfl, hroot⟩ := h.eq_putAll_pages hgo
  have hlocate {o : Outcome} (ho : o ∈ r) (hok : o.result.isOk = true) :
      (t.putAll (p.pages t r)).locate (p.outputPath o.path) = .ok (p.outputPlace t o.path) := by
    have hmem : p.outputPlace t o.path ∈ (p.pages t r).map Prod.fst := by
      rw [map_fst_pages]
      exact List.mem_map_of_mem (List.mem_filter.2 ⟨ho, hok⟩)
    obtain ⟨text, hfile⟩ := FileTree.exists_node?_putAll hroot hmem
    exact ((h.goesTo _ _ (hgo o ho)).read hfile).1
  ext q
  simp only [written, Set.mem_ofPred_eq, List.coe_toFinset, List.mem_map, List.mem_filter]
  constructor
  · rintro ⟨o, ho, hok, hq⟩
    exact ⟨o, ⟨ho, hok⟩, Except.ok.inj ((hlocate ho hok).symm.trans hq)⟩
  · rintro ⟨o, ⟨ho, hok⟩, rfl⟩
    exact ⟨o, ho, hok, hlocate ho hok⟩

/-- A page is read from its output if no later output goes to its place. -/
lemma Wrote.readText {before after : Report} {o : Outcome} (hr : r = before ++ o :: after)
    {doc : Rendered} (hresult : o.result = .ok doc)
    (hlater : ∀ o' ∈ after, o'.result.isOk = true →
      p.outputPlace t o'.path ≠ p.outputPlace t o.path) :
    t'.readText (p.outputPath o.path) = .ok doc.html := by
  obtain ⟨rfl, hroot⟩ := h.eq_putAll_pages hgo
  refine ((h.goesTo _ _ (hgo o (by simp [hr]))).read ?_).2
  refine (FileTree.node?_putAll hroot).2 (p.pages t before) _ _ (p.pages t after) ?_ ?_
  · rw [hr, ← List.singleton_append, pages_append, pages_append, pages_singleton hresult]
    rfl
  · rw [map_fst_pages, List.mem_map]
    rintro ⟨o', ho', hplace⟩
    obtain ⟨hmem, hok⟩ := List.mem_filter.1 ho'
    exact hlater o' hmem hok hplace

end Written

end Run

/-! ## Documents that were found -/

/-- The name of an output for a document. -/
def IsOutputName (p : Project) (name : Text) : Prop :=
  ∃ f ∈ p.files, (p.outputPath f).fileName? = some name

section Documents

variable {s : Scan} {f g : Path} {way : List Text} {place : Trail} {stem : Text}
  (hext : p.config.outputExtension ≠ []) (hslash : '/' ∉ p.config.outputExtension)
  (hlinks : t.HasNoLink p.IsOutputName)

include hext hslash hlinks

/-- The output for a document goes where the document was found. -/
lemma goesTo_of_foundAt (hmem : f ∈ p.files) (hf : s.FoundAt t f way place stem) :
    p.GoesTo t f (place ++ [stem ++ '.' :: p.config.outputExtension]) := by
  have hname := hf.isFileName.append_dot hslash
  refine ⟨⟨_, _, _, hf.isDirAt, hname, hf.outputPath hext, rfl⟩, fun target => ?_⟩
  refine hlinks _ _ target ⟨f, hmem, ?_⟩
  rw [hf.outputPath hext, Path.fileName?_join _ hname]

variable (ht : t.IsTree) (hfiles : s.documents t = .ok p.files)

include ht hfiles

/-- Every document has a place where its output goes. -/
lemma goesTo_outputPlace (hmem : f ∈ p.files) : p.GoesTo t f (p.outputPlace t f) := by
  obtain ⟨way, place, stem, hf⟩ := Scan.exists_foundAt ht hfiles hmem
  have hgoes := goesTo_of_foundAt hext hslash hlinks hmem hf
  rwa [hgoes.outputPlace_eq]

/-- Outputs go to one place exactly if the documents have the same stem. -/
lemma outputPlace_eq_iff (hf : f ∈ p.files) (hg : g ∈ p.files) :
    p.outputPlace t f = p.outputPlace t g ↔ f.SameStem g := by
  obtain ⟨way, place, stem, hfoundf⟩ := Scan.exists_foundAt ht hfiles hf
  obtain ⟨way', place', stem', hfoundg⟩ := Scan.exists_foundAt ht hfiles hg
  rw [(goesTo_of_foundAt hext hslash hlinks hf hfoundf).outputPlace_eq,
    (goesTo_of_foundAt hext hslash hlinks hg hfoundg).outputPlace_eq,
    hfoundf.sameStem_iff hfoundg ht, hfoundf.place_iff hfoundg ⟨_, hfiles⟩]

end Documents

/-- **Outputs by stem.**  Take the documents that a walk finds, and accepted settings with an
extension without slashes.  Two documents share an output exactly if they have the same stem: they
are in one directory, and their names differ in the extension of Markdown at most.

Take moreover a report about some of the documents, and a tree in which no link has the name of an
output.  Then writing the outputs succeeds if no directory is where one goes, and it counts the
documents that were built.  This is the number of files that hold outputs exactly if no two of these
documents have the same stem.  The page of each is read from its output, unless one that comes later
has the same stem. -/
theorem outputs_by_stem (p : Project) (s : Scan) {t : FileTree} (ht : t.IsTree)
    (hvalid : p.config.validate = .ok ()) (hslash : '/' ∉ p.config.outputExtension)
    (hfiles : s.documents t = .ok p.files) :
    (∀ f ∈ p.files, ∀ g ∈ p.files,
      (p.outputPath f).same (p.outputPath g) = true ↔ f.SameStem g) ∧
    ∀ r : Report, (∀ o ∈ r, o.path ∈ p.files) → t.HasNoLink p.IsOutputName →
      ((∃ n t', p.writeOutputs r t = (.ok n, t')) ↔
        ∀ o ∈ r, o.result.isOk = true → t.isDir (p.outputPath o.path) = false) ∧
      ∀ n t', p.writeOutputs r t = (.ok n, t') →
        n = (r.filter (·.result.isOk)).length ∧
        (n = (p.written r t').ncard ↔
          (r.filter (·.result.isOk)).Pairwise fun o o' => ¬ o.path.SameStem o'.path) ∧
        ∀ before o after doc, r = before ++ o :: after → o.result = .ok doc →
          (∀ o' ∈ after, o'.result.isOk = true → ¬ o.path.SameStem o'.path) →
            t'.readText (p.outputPath o.path) = .ok doc.html := by
  have hext := outputExtension_ne_nil hvalid
  refine ⟨fun f hf g hg => ?_, fun r hr hlinks => ?_⟩
  · obtain ⟨way, place, stem, hfoundf⟩ := Scan.exists_foundAt ht hfiles hf
    obtain ⟨way', place', stem', hfoundg⟩ := Scan.exists_foundAt ht hfiles hg
    rw [hfoundf.same_iff hfoundg hext hslash ht, hfoundf.sameStem_iff hfoundg ht]
  have hgo : ∀ o ∈ r, p.GoesTo t o.path (p.outputPlace t o.path) := fun o ho =>
    goesTo_outputPlace hext hslash hlinks ht hfiles (hr o ho)
  have hsame : ∀ o ∈ r, ∀ o' ∈ r,
      p.outputPlace t o.path = p.outputPlace t o'.path ↔ o.path.SameStem o'.path :=
    fun o ho o' ho' => outputPlace_eq_iff hext hslash hlinks ht hfiles (hr o ho) (hr o' ho')
  refine ⟨exists_writeOutputs_iff hvalid hgo, fun n t' h => ?_⟩
  obtain ⟨hcount, hwrote⟩ := wrote_of_writeOutputs hvalid hgo h
  refine ⟨hcount, ?_, ?_⟩
  · have hcard (places : List Trail) : places.length = places.toFinset.card ↔ places.Nodup :=
      eq_comm.trans (Multiset.toFinset_card_eq_card_iff_nodup (m := (places : Multiset Trail)))
    rw [hwrote.written_eq hgo, Set.ncard_coe_finset, hcount,
      ← List.length_map fun o => p.outputPlace t o.path, hcard, List.Nodup, List.pairwise_map]
    refine List.Pairwise.iff_of_mem fun {o o'} ho ho' => not_congr ?_
    exact hsame o (List.mem_of_mem_filter ho) o' (List.mem_of_mem_filter ho')
  · intro before o after doc heq hresult hlater
    refine hwrote.readText hgo heq hresult fun o' ho' hok hplace => hlater o' ho' hok ?_
    exact (hsame o (by simp [heq]) o' (by simp [heq, ho'])).1 hplace.symm

/-! ## Three documents -/

/-- Three documents, of which two have the same stem. -/
def threeDocuments : FileTree where
  nodes := [(["a.markdown".toList], .file ⟨#[65]⟩), (["a.md".toList], .file ⟨#[66]⟩),
    (["b.md".toList], .file ⟨#[67]⟩)]
  workingDir := []

/-- The project with these documents. -/
def threeProject : Project where
  root := "/".toList
  config := {}
  files := ["/a.markdown".toList, "/a.md".toList, "/b.md".toList]

lemma documents_three :
    (⟨"/".toList, [], [], [], 10⟩ : Scan).documents threeDocuments = .ok threeProject.files := by
  have hroot : threeDocuments.locate "/".toList = .ok [] := by cbv
  rw [Scan.documents_of_flat hroot (by cbv)]
  · cbv
  · show ∀ name ∈ ["a.markdown".toList, "a.md".toList, "b.md".toList], _
    simp only [List.forall_mem_cons]
    exact ⟨by cbv, by cbv, by cbv, by simp⟩

lemma hasNoLink_three : threeDocuments.HasNoLink threeProject.IsOutputName := by
  have hlinks : threeDocuments.IsLinkless := by simp [FileTree.IsLinkless, threeDocuments]
  exact fun place name target _ => hlinks.node?_ne _ target

lemma isDir_three : ∀ f ∈ threeProject.files,
    threeDocuments.isDir (threeProject.outputPath f) = false := by
  simp only [threeProject, List.forall_mem_cons]
  exact ⟨by cbv, by cbv, by cbv, by simp⟩

lemma outputPlace_three :
    threeProject.outputPlace threeDocuments "/a.markdown".toList = ["a.html".toList] ∧
      threeProject.outputPlace threeDocuments "/a.md".toList = ["a.html".toList] ∧
        threeProject.outputPlace threeDocuments "/b.md".toList = ["b.html".toList] :=
  ⟨by cbv, by cbv, by cbv⟩

/-- Two of the documents were built, with different stems. -/
theorem outputs_by_stem_three :
    let o : Outcome := ⟨"/a.markdown".toList, .error (.cancelled "/a.markdown".toList)⟩
    let o₁ : Outcome := ⟨"/a.md".toList, .ok ⟨none, "A".toList, []⟩⟩
    let o₂ : Outcome := ⟨"/b.md".toList, .ok ⟨none, "B".toList, []⟩⟩
    let r : Report := [o, o₁, o₂]
    ∃ t', threeProject.writeOutputs r threeDocuments = (.ok 2, t') ∧
      (threeProject.written r t').ncard = 2 ∧
        t'.readText (threeProject.outputPath o₁.path) = .ok "A".toList ∧
          t'.readText (threeProject.outputPath o₂.path) = .ok "B".toList := by
  intro o o₁ o₂ r
  obtain ⟨hstem, hwriting⟩ :=
    outputs_by_stem threeProject _ (by decide) rfl (by decide) documents_three
  have hmem : ∀ o ∈ r, o.path ∈ threeProject.files := by
    simp [r, o, o₁, o₂, threeProject]
  have hne : ¬ o₁.path.SameStem o₂.path := fun h =>
    absurd ((hstem _ (hmem o₁ (by simp [r])) _ (hmem o₂ (by simp [r]))).2 h) (by decide)
  obtain ⟨hsucceeds, hwrites⟩ := hwriting r hmem hasNoLink_three
  obtain ⟨n, t', hrun⟩ := hsucceeds.2 fun o ho _ => isDir_three _ (hmem o ho)
  obtain ⟨hn, hcount, hpages⟩ := hwrites n t' hrun
  obtain rfl : n = 2 := hn
  refine ⟨t', hrun, (hcount.2 ?_).symm, ?_, ?_⟩
  · show [o₁, o₂].Pairwise _
    simpa using hne
  · refine hpages [o] o₁ [o₂] ⟨none, "A".toList, []⟩ rfl rfl ?_
    simpa using fun _ => hne
  · exact hpages [o, o₁] o₂ [] ⟨none, "B".toList, []⟩ rfl rfl (by simp)

/-- **Two documents may have one page.**  The documents `a.markdown` and `a.md` of one directory
share the output `a.html`: when all three documents were built three outputs are counted, but two
files are written, and the page of `a.markdown` is lost to that of `a.md`. -/
theorem stem_shared :
    let o : Outcome := ⟨"/a.markdown".toList, .ok ⟨none, "A".toList, []⟩⟩
    let o₁ : Outcome := ⟨"/a.md".toList, .ok ⟨none, "B".toList, []⟩⟩
    let o₂ : Outcome := ⟨"/b.md".toList, .ok ⟨none, "C".toList, []⟩⟩
    let r : Report := [o, o₁, o₂]
    threeProject.config.validate = .ok () ∧
      (⟨"/".toList, [], [], [], 10⟩ : Scan).documents threeDocuments = .ok threeProject.files ∧
      o.path ≠ o₁.path ∧ threeProject.outputPath o.path = threeProject.outputPath o₁.path ∧
        ∃ t', threeProject.writeOutputs r threeDocuments = (.ok 3, t') ∧
          (threeProject.written r t').ncard = 2 ∧
            t'.readText (threeProject.outputPath o.path) = .ok "B".toList := by
  intro o o₁ o₂ r
  have hmem : ∀ o ∈ r, o.path ∈ threeProject.files := by
    simp [r, o, o₁, o₂, threeProject]
  have hgo : ∀ o ∈ r, threeProject.GoesTo threeDocuments o.path
      (threeProject.outputPlace threeDocuments o.path) := fun o ho =>
    goesTo_outputPlace (by decide) (by decide) hasNoLink_three (by decide) documents_three
      (hmem o ho)
  have hsame : threeProject.outputPath o.path = threeProject.outputPath o₁.path := by decide
  obtain ⟨n, t', hrun⟩ :=
    (exists_writeOutputs_iff rfl hgo).2 fun o ho _ => isDir_three _ (hmem o ho)
  obtain ⟨rfl, hwrote⟩ := wrote_of_writeOutputs rfl hgo hrun
  obtain ⟨ha, ha₁, hb⟩ : threeProject.outputPlace threeDocuments o.path = ["a.html".toList] ∧
      threeProject.outputPlace threeDocuments o₁.path = ["a.html".toList] ∧
        threeProject.outputPlace threeDocuments o₂.path = ["b.html".toList] := outputPlace_three
  refine ⟨rfl, documents_three, by decide, hsame, t', hrun, ?_, ?_⟩
  · have hplaces : (r.filter (·.result.isOk)).map
        (fun o => threeProject.outputPlace threeDocuments o.path) =
          [["a.html".toList], ["a.html".toList], ["b.html".toList]] := by
      show [o, o₁, o₂].map _ = _
      simp only [List.map_cons, List.map_nil, ha, ha₁, hb]
    rw [hwrote.written_eq hgo, hplaces, Set.ncard_coe_finset]
    decide
  · rw [hsame]
    refine hwrote.readText hgo (show r = [o] ++ o₁ :: [o₂] from rfl)
      (show o₁.result = .ok ⟨none, "B".toList, []⟩ from rfl) ?_
    simp only [List.mem_singleton, forall_eq]
    rw [ha₁, hb]
    decide

end Project

end Docmark
