import Mathlib
import Docmark.Proofs.FileTree.Locate

/-!
# Files and their directories

In a tree without links, what a path leads to depends on its steps alone, as far as directories are
concerned.  So the directory of a file's path leads to the directory that holds the file, and what a
directive names is sought in the same place for any two paths of a file.

## Main results

* `FileTree.exists_base_parent?` — the directory of a path leads to the directory of the file.
* `FileTree.resolve_congr` — paths of one file find the same targets.
-/

namespace Docmark

namespace FileTree

variable {t : FileTree}

/-- The place where the steps of a path start. -/
def start (t : FileTree) (p : Path) : Trail := if p.isAbsolute then [] else t.workingDir

/-- The pieces of a path that are steps. -/
def stepPieces (pieces : List Text) : List Text :=
  (pieces.filterMap Path.pieceComponent?).map Path.Component.text

lemma stepPieces_cons_void {piece : Text} (h : piece = [] ∨ piece = ['.']) (pieces : List Text) :
    stepPieces (piece :: pieces) = stepPieces pieces := by
  rw [stepPieces, List.filterMap_cons_none (by rw [Path.pieceComponent?, if_pos h])]
  rfl

lemma stepPieces_cons {piece : Text} (h : ¬ (piece = [] ∨ piece = ['.'])) (pieces : List Text) :
    stepPieces (piece :: pieces) = piece :: stepPieces pieces := by
  by_cases hdots : piece = ['.', '.']
  · rw [hdots]
    rfl
  · have hname : Path.pieceComponent? piece = some (.name piece) := by
      rw [Path.pieceComponent?, if_neg h, if_neg hdots]
    rw [stepPieces, List.filterMap_cons_some hname]
    rfl

/-- A piece that is no step only asks for a directory. -/
lemma follow_cons_void {piece : Text} (h : piece = [] ∨ piece = ['.']) {links : Nat}
    {place q : Trail} {rest : List Text} :
    t.follow false links place (piece :: rest) = .ok q ↔
      t.node? place = some .directory ∧ t.follow false links place rest = .ok q := by
  rw [follow]
  cases hnode : t.node? place with
  | none => simp
  | some node => cases node <;> simp [h]

/-- Pieces that lead to a directory start in one. -/
lemma node?_of_follow {links : Nat} {place q : Trail} {pieces : List Text}
    (h : t.follow false links place pieces = .ok q) (hdir : t.node? q = some .directory) :
    t.node? place = some .directory := by
  cases pieces with
  | nil =>
    rw [follow, Except.ok.injEq] at h
    rwa [h]
  | cons piece rest =>
    rw [follow] at h
    split at h
    next hplace => exact hplace
    next => cases h

/-- The path of a place leads down from the root by the names of the place. -/
lemma pathOf_eq_descend {place : Trail} (hnames : ∀ name ∈ place, Path.IsName name) :
    pathOf place = Path.descend ['/'] place := by
  by_cases hne : place = []
  · rw [hne]
    rfl
  · exact (Path.descend_eq ['/'] hne hnames).symm

section Linkless

variable (hlinks : t.IsLinkless)

include hlinks

/-- Where pieces lead, their steps lead. -/
lemma follow_stepPieces {links : Nat} {place q : Trail} {pieces : List Text}
    (h : t.follow false links place pieces = .ok q) :
    t.follow false links place (stepPieces pieces) = .ok q := by
  induction pieces generalizing place with
  | nil => exact h
  | cons piece pieces ih =>
    by_cases hvoid : piece = [] ∨ piece = ['.']
    · rw [stepPieces_cons_void hvoid]
      exact ih ((follow_cons_void hvoid).1 h).2
    · rw [← List.singleton_append, follow_append hlinks] at h
      obtain ⟨next, hnext, h⟩ := exists_of_bind_ok h
      rw [stepPieces_cons hvoid, ← List.singleton_append, follow_append hlinks, hnext]
      exact ih h

/-- Where the steps of pieces lead to a directory, the pieces lead. -/
lemma follow_of_stepPieces {links : Nat} {place q : Trail} {pieces : List Text}
    (h : t.follow false links place (stepPieces pieces) = .ok q)
    (hdir : t.node? q = some .directory) : t.follow false links place pieces = .ok q := by
  induction pieces generalizing place with
  | nil => exact h
  | cons piece pieces ih =>
    by_cases hvoid : piece = [] ∨ piece = ['.']
    · rw [stepPieces_cons_void hvoid] at h
      have hrest := ih h
      exact (follow_cons_void hvoid).2 ⟨node?_of_follow hrest hdir, hrest⟩
    · rw [stepPieces_cons hvoid, ← List.singleton_append, follow_append hlinks] at h
      obtain ⟨next, hnext, h⟩ := exists_of_bind_ok h
      rw [← List.singleton_append, follow_append hlinks, hnext]
      exact ih h

/-- A path that leads to a file ends in the name of the file, and the steps before lead to the
directory of the file. -/
lemma exists_steps_of_locate (ht : t.IsTree) {p : Path} {place : Trail} {content : ByteArray}
    (h : t.locate p = .ok place) (hfile : t.node? place = some (.file content)) :
    ∃ above name, p.steps = above ++ [.name name] ∧ place.getLast? = some name ∧
      t.follow false maxLinks (t.start p) (above.map Path.Component.text) = .ok place.dropLast := by
  have hfollow : t.follow false maxLinks (t.start p) (splitOn '/' p) = .ok place := by
    rw [locate, find] at h
    split at h
    next => cases h
    next => exact h
  have hsteps : t.follow false maxLinks (t.start p) (p.steps.map Path.Component.text) = .ok place :=
    follow_stepPieces hlinks hfollow
  obtain hnil | ⟨above, c, hconcat⟩ := p.steps.eq_nil_or_concat
  · -- without steps, the file would be the directory where the path starts
    rw [hnil, List.map_nil, follow, Except.ok.injEq] at hsteps
    obtain ⟨piece, rest, hpieces⟩ := List.exists_cons_of_ne_nil (@splitOn_ne_nil '/' p)
    rw [hpieces, follow, hsteps, hfile] at hfollow
    cases hfollow
  · have hc : c.IsStep := p.steps_isStep c (by rw [hconcat]; simp)
    rw [List.concat_eq_append] at hconcat
    rw [hconcat, List.map_append, List.map_singleton, follow_append hlinks] at hsteps
    obtain ⟨next, hnext, hlast⟩ := exists_of_bind_ok hsteps
    cases hc with
    | parent =>
      -- above a directory is a directory
      have hlast' : t.follow false maxLinks next [['.', '.']] = .ok place := hlast
      rw [follow] at hlast'
      split at hlast'
      next hdir =>
        rw [if_neg (by simp), if_pos rfl, follow, Except.ok.injEq] at hlast'
        have habove := ht.node?_dropLast (show (t.node? next).isSome = true by rw [hdir]; rfl)
        rw [hlast', hfile] at habove
        cases habove
      next => cases hlast'
    | @name name hname =>
      obtain ⟨rfl, -, -⟩ := (follow_name hlinks maxLinks hname).1 hlast
      exact ⟨above, name, hconcat, List.getLast?_concat, by rw [List.dropLast_concat, hnext]⟩

/-- **The directory of a file's path** leads to the directory of the file. -/
theorem exists_base_parent? (ht : t.IsTree) {p : Path} {place : Trail} {content : ByteArray}
    (h : t.locate p = .ok place) (hfile : t.node? place = some (.file content)) :
    ∃ dir, p.parent? = some dir ∧ dir.isAbsolute = p.isAbsolute ∧
      t.base dir = .ok place.dropLast := by
  obtain ⟨above, name, hsteps, -, hfollow⟩ := exists_steps_of_locate hlinks ht h hfile
  obtain ⟨dir, hparent, habs, hdirsteps⟩ := Path.exists_parent? hsteps
  refine ⟨dir, hparent, habs, ?_⟩
  rw [start, ← habs, ← hdirsteps] at hfollow
  by_cases hdir : dir = []
  · subst hdir
    rw [← hfollow, base, if_pos rfl]
    exact (follow.eq_1 t false maxLinks t.workingDir).symm
  · rw [base, if_neg hdir, locate, find, if_neg hdir]
    exact follow_of_stepPieces hlinks hfollow (ht.node?_dropLast (by rw [hfile]; rfl))

/-- A path with a slash at its end denotes a directory. -/
lemma node?_of_locate_join_nil {dir : Path} {q : Trail} (h : t.locate (dir.join []) = .ok q) :
    t.node? q = some .directory := by
  by_cases hdir : dir = []
  · subst hdir
    cases h
  · rw [locate_join hlinks dir rfl (.inl hdir)] at h
    obtain ⟨here, -, h⟩ := exists_of_bind_ok h
    obtain ⟨hnode, h⟩ := (follow_cons_void (.inl rfl)).1 h
    rw [follow, Except.ok.injEq] at h
    rwa [← h]

/-- **Paths of one file find the same targets.** -/
theorem resolve_congr (ht : t.IsTree) (baseDir : Option Path) {p p' : Path} {place : Trail}
    {content : ByteArray} (h : t.locate p = .ok place) (h' : t.locate p' = .ok place)
    (hfile : t.node? place = some (.file content)) (target : Path) :
    t.resolve baseDir target (some p) = t.resolve baseDir target (some p') := by
  obtain ⟨dir, hparent, -, hbase⟩ := exists_base_parent? hlinks ht h hfile
  obtain ⟨dir', hparent', -, hbase'⟩ := exists_base_parent? hlinks ht h' hfile
  by_cases habs : target.isAbsolute = true
  · simp only [resolve, candidate, habs, if_true]
  · rw [Bool.not_eq_true] at habs
    have hcandidate {p dir : Path} (hparent : p.parent? = some dir) :
        candidate baseDir target (some p) = dir.join target := by
      simp [candidate, habs, hparent]
    by_cases hnil : target = []
    · -- a directory is not found
      have hnone {p dir : Path} (hparent : p.parent? = some dir) :
          t.resolve baseDir target (some p) = none := by
        rw [resolve, hcandidate hparent, hnil]
        cases hplace : t.locate (dir.join []) with
        | error => rfl
        | ok q => simp only [node?_of_locate_join_nil hlinks hplace]
      rw [hnone hparent, hnone hparent']
    · rw [resolve, resolve, hcandidate hparent, hcandidate hparent',
        locate_join hlinks dir habs (.inr hnil), locate_join hlinks dir' habs (.inr hnil), hbase, hbase']

/-! ## Absolute paths -/

omit hlinks in
/-- The names on the way to what stands at a place. -/
lemma isName_of_mem_place (ht : t.IsTree) {place : Trail} (h : (t.node? place).isSome = true) :
    ∀ name ∈ place, Path.IsName name := by
  intro name hname
  have hne : place ≠ [] := List.ne_nil_of_mem hname
  obtain ⟨node, hnode⟩ := (isSome_node?_iff hne).1 h
  exact ht.isName _ hnode name hname

/-- The path of a place leads to the place, if something stands there. -/
lemma locate_pathOf (ht : t.IsTree) {place : Trail} (h : (t.node? place).isSome = true) :
    t.locate (pathOf place) = .ok place := by
  have hroot : t.locate ['/'] = .ok [] := by
    simp [locate, find, follow, splitOn, node?, Path.isAbsolute]
  have hnames := isName_of_mem_place ht h
  rw [pathOf_eq_descend hnames]
  exact (locate_descend hlinks ht hroot hnames).2 ⟨rfl, h⟩

end Linkless

/-- The directory of the path of a place is the path of the directory of the place. -/
lemma parent?_pathOf {place : Trail} (hne : place ≠ [])
    (hnames : ∀ name ∈ place, Path.IsName name) :
    (pathOf place).parent? = some (pathOf place.dropLast) := by
  obtain ⟨above, name, rfl⟩ := List.eq_nil_or_concat' place |>.resolve_left hne
  have habove : ∀ name ∈ above, Path.IsName name := fun s hs =>
    hnames s (List.mem_append_left _ hs)
  have hcomponents := Path.components_descend ['/'] hnames
  have hdir : Path.ofComponents ((Path.components ['/']) ++ above.map .name) =
      Path.descend ['/'] above := by
    rw [Path.ofComponents, List.foldl_append, List.foldl_map]
    rfl
  rw [List.dropLast_concat, pathOf_eq_descend hnames, pathOf_eq_descend habove, Path.parent?,
    hcomponents, ← hdir, List.map_append, ← List.append_assoc, List.reverse_append]
  simp

lemma parent?_pathOf_of_file (ht : t.IsTree) {place : Trail} {content : ByteArray}
    (hfile : t.node? place = some (.file content)) :
    (pathOf place).parent? = some (pathOf place.dropLast) := by
  have hne : place ≠ [] := by
    rintro rfl
    cases hfile
  exact parent?_pathOf hne (isName_of_mem_place ht (by rw [hfile]; rfl))

lemma isAbsolute_pathOf (place : Trail) : (pathOf place).isAbsolute = true := rfl

/-- What is found is a file, under the path of its place. -/
lemma exists_of_resolve {baseDir : Option Path} {target : Path} {file : Option Path} {r : Resolved}
    (h : t.resolve baseDir target file = some r) :
    ∃ place content, r.path = pathOf place ∧ t.node? place = some (.file content) := by
  rw [resolve] at h
  split at h
  next => cases h
  next place _ =>
    split at h
    next content hfile =>
      obtain ⟨text, -, rfl⟩ := Option.map_eq_some_iff.1 h
      exact ⟨place, content, rfl, hfile⟩
    next => cases h

/-- A text that is encoded is read as it was. -/
lemma decode?_encode (text : Text) : decode? (encode text) = some text := by
  have hround (s : String) : String.fromUTF8? s.toUTF8 = some s := by
    rw [String.fromUTF8?, String.toUTF8_eq_toByteArray, dif_pos s.isValidUTF8]
    rfl
  rw [decode?, encode, hround, Option.map_some, String.toList_ofList]

end FileTree

end Docmark
