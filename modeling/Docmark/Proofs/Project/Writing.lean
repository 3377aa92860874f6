import Mathlib
import Docmark.FileTree
import Docmark.Proofs.Outcome
import Docmark.Proofs.Path.Extension

/-!
# Writing to a file tree

What a file tree has at its places after something was written.  A path that ends in a name denotes
a place of that name, unless there is a link of that name, so that what is written to one path does
not change what is read from a path with another name.

## Main results

* `FileTree.follows_of_ok`, `FileTree.Follows.ok` — how a path is followed, piece by piece.
* `FileTree.readBytes_writeText` — files with other names keep their content.
-/

namespace Docmark

namespace FileTree

variable {t t' : FileTree}

/-! ## Places -/

section Put

variable {place q : Trail} (node : FileNode) (nodes : List (Trail × FileNode))

lemma lookup_replace (hmem : ∃ n ∈ nodes, n.1 = place) :
    (nodes.map fun n => if n.1 = place then (place, node) else n).lookup place = some node := by
  induction nodes with
  | nil => simp at hmem
  | cons n nodes ih =>
    rw [List.map_cons, List.lookup_cons]
    by_cases hn : n.1 = place
    · simp [hn]
    · have hrest : ∃ m ∈ nodes, m.1 = place := by simpa [hn] using hmem
      have hne : (place == n.1) = false := by simpa using Ne.symm hn
      rw [if_neg hn, hne]
      exact ih hrest

lemma lookup_replace_of_ne (hq : q ≠ place) :
    (nodes.map fun n => if n.1 = place then (place, node) else n).lookup q = nodes.lookup q := by
  induction nodes with
  | nil => rfl
  | cons n nodes ih =>
    rw [List.map_cons, List.lookup_cons, List.lookup_cons, ih]
    by_cases hn : n.1 = place
    · have hne : (q == place) = false := by simpa using hq
      simp only [hn, if_true, hne]
    · rw [if_neg hn]

/-- What stands at a place after something was put at one. -/
lemma node?_put (hplace : place ≠ []) :
    (t.put place node).node? q = if q = place then some node else t.node? q := by
  have hroot {q : Trail} (hq : q ≠ []) (t : FileTree) : t.node? q = t.nodes.lookup q := by
    rw [node?, if_neg (by simpa using hq)]
  by_cases hq : q = []
  · rw [hq, if_neg (Ne.symm hplace)]
    rfl
  rw [hroot hq, hroot hq, put]
  split
  next hmem =>
    have hmem' : ∃ n ∈ t.nodes, n.1 = place := by simpa using hmem
    split
    next heq => rw [heq, lookup_replace node t.nodes hmem']
    next hne => rw [lookup_replace_of_ne node t.nodes hne]
  next =>
    rw [List.lookup_cons]
    split
    next heq => rw [if_pos (eq_of_beq heq)]
    next hne => rw [if_neg (ne_of_beq_false hne)]

end Put

/-! ## Following paths -/

/-- A piece of a path that is neither empty nor made of dots. -/
def IsNamePiece (piece : Text) : Prop := piece ≠ [] ∧ piece ≠ ['.'] ∧ piece ≠ ['.', '.']

lemma isNamePiece_of_isFileName {s : Text} (h : Path.IsFileName s) :
    IsNamePiece s := ⟨h.isName.1, h.isName.2.1, h.isName.2.2.1⟩

/-- **Following a path.**  From a directory, a piece leads nowhere else, to the directory above, or
to what stands under its name; behind a link, the pieces of its target come first.  With `create`, a
last name need not be there. -/
inductive Follows (t : FileTree) (create : Bool) : Nat → Trail → List Text → Trail → Prop
  | done {links : Nat} {place : Trail} : Follows t create links place [] place
  | stay {links : Nat} {place q : Trail} {piece : Text} {rest : List Text}
      (hdir : t.node? place = some .directory) (hpiece : piece = [] ∨ piece = ['.'])
      (h : Follows t create links place rest q) : Follows t create links place (piece :: rest) q
  | up {links : Nat} {place q : Trail} {rest : List Text}
      (hdir : t.node? place = some .directory) (h : Follows t create links place.dropLast rest q) :
      Follows t create links place (['.', '.'] :: rest) q
  | new {links : Nat} {place : Trail} {piece : Text}
      (hdir : t.node? place = some .directory) (hpiece : IsNamePiece piece)
      (hnone : t.node? (place ++ [piece]) = none) (hcreate : create = true) :
      Follows t create links place [piece] (place ++ [piece])
  | down {links : Nat} {place q : Trail} {piece : Text} {rest : List Text} {node : FileNode}
      (hdir : t.node? place = some .directory) (hpiece : IsNamePiece piece)
      (hnode : t.node? (place ++ [piece]) = some node) (hlink : ∀ target, node ≠ .link target)
      (h : Follows t create links (place ++ [piece]) rest q) :
      Follows t create links place (piece :: rest) q
  | link {links : Nat} {place q : Trail} {piece : Text} {rest : List Text} {target : Path}
      (hdir : t.node? place = some .directory) (hpiece : IsNamePiece piece)
      (hlink : t.node? (place ++ [piece]) = some (.link target))
      (h : Follows t create links (if target.isAbsolute then [] else place)
        (splitOn '/' target ++ rest) q) :
      Follows t create (links + 1) place (piece :: rest) q

section Follows

variable {create : Bool} {links : Nat} {place q : Trail} {pieces : List Text}

lemma follows_of_ok (h : t.follow create links place pieces = .ok q) :
    Follows t create links place pieces q := by
  have hname {piece : Text} (hvoid : ¬ (piece = [] ∨ piece = ['.'])) (hdots : piece ≠ ['.', '.']) :
      IsNamePiece piece := ⟨(not_or.1 hvoid).1, (not_or.1 hvoid).2, hdots⟩
  induction links, place, pieces using follow.induct t create with
  | case1 links place =>
    rw [follow, Except.ok.injEq] at h
    rw [← h]
    exact .done
  | case2 links place piece rest hdir hvoid ih =>
    simp only [follow, hdir, if_pos hvoid] at h
    exact .stay hdir hvoid (ih h)
  | case3 links place rest hdir hvoid ih =>
    simp only [follow, hdir, if_neg hvoid, if_true] at h
    exact .up hdir (ih h)
  | case4 links place piece rest hdir hvoid hdots hnone hcreate =>
    simp only [follow, hdir, if_neg hvoid, if_neg hdots, hnone, if_pos hcreate,
      Except.ok.injEq] at h
    rw [← h, hcreate.2]
    exact .new hdir (hname hvoid hdots) hnone hcreate.1
  | case5 links place piece rest hdir hvoid hdots hnone hcreate =>
    simp only [follow, hdir, if_neg hvoid, if_neg hdots, hnone, if_neg hcreate] at h
    cases h
  | case6 place piece rest hdir hvoid hdots target hlink =>
    simp only [follow, hdir, if_neg hvoid, if_neg hdots, hlink] at h
    cases h
  | case7 place piece rest hdir hvoid hdots target hlink links ih =>
    simp only [follow, hdir, if_neg hvoid, if_neg hdots, hlink] at h
    exact .link hdir (hname hvoid hdots) hlink (ih h)
  | case8 links place piece rest hdir hvoid hdots node hnolink hnode ih =>
    have hrest : t.follow create links (place ++ [piece]) rest = .ok q := by
      cases node with
      | link target => exact (hnolink target rfl).elim
      | _ => simpa only [follow, hdir, if_neg hvoid, if_neg hdots, hnode] using h
    exact .down hdir (hname hvoid hdots) hnode hnolink (ih hrest)
  | case9 links place piece rest hdir =>
    rw [follow] at h
    split at h
    next hdir' => exact absurd hdir' hdir
    next => cases h

lemma Follows.ok (h : Follows t create links place pieces q) :
    t.follow create links place pieces = .ok q := by
  induction h with
  | done => rw [follow]
  | stay hdir hpiece _ ih => simp only [follow, hdir, if_pos hpiece, ih]
  | up hdir _ ih => simp [follow, hdir, ih]
  | new hdir hpiece hnone hcreate =>
    simp [follow, hdir, hpiece.1, hpiece.2.1, hpiece.2.2, hnone, hcreate]
  | @down _ _ _ _ _ node hdir hpiece hnode hlink _ ih =>
    cases node with
    | link target => exact absurd rfl (hlink target)
    | _ => simp [follow, hdir, hpiece.1, hpiece.2.1, hpiece.2.2, hnode, ih]
  | link hdir hpiece hlink _ ih =>
    simp [follow, hdir, hpiece.1, hpiece.2.1, hpiece.2.2, hlink, ih]

/-- Where no link has the last name of a path, the path denotes a place of that name. -/
lemma Follows.getLast?_eq {name : Text} (hname : IsNamePiece name)
    (hlinks : ∀ place target, t.node? (place ++ [name]) ≠ some (.link target))
    (h : Follows t create links place pieces q) (before : List Text)
    (hpieces : pieces = before ++ [name]) : q.getLast? = some name := by
  obtain ⟨hne, hdot, hdots⟩ := hname
  have hcases {piece : Text} {rest : List Text} {before : List Text}
      (h : piece :: rest = before ++ [name]) :
      piece = name ∧ rest = [] ∨ ∃ before', rest = before' ++ [name] := by
    cases before with
    | nil => exact .inl (by simpa using h)
    | cons b before => exact .inr ⟨before, (List.cons.inj h).2⟩
  induction h generalizing before with
  | done => simp at hpieces
  | stay hdir hpiece h ih =>
    rcases hcases hpieces with ⟨rfl, -⟩ | ⟨before', hrest⟩
    · exact absurd hpiece (not_or.2 ⟨hne, hdot⟩)
    · exact ih before' hrest
  | up hdir h ih =>
    rcases hcases hpieces with ⟨rfl, -⟩ | ⟨before', hrest⟩
    · exact absurd rfl hdots
    · exact ih before' hrest
  | new hdir hpiece hnone hcreate =>
    rcases hcases hpieces with ⟨rfl, -⟩ | ⟨before', hrest⟩
    · exact List.getLast?_concat
    · simp at hrest
  | down hdir hpiece hnode hlink h ih =>
    rcases hcases hpieces with ⟨rfl, rfl⟩ | ⟨before', hrest⟩
    · cases h
      exact List.getLast?_concat
    · exact ih before' hrest
  | @link _ _ _ _ _ target hdir hpiece hlink h ih =>
    rcases hcases hpieces with ⟨rfl, -⟩ | ⟨before', hrest⟩
    · exact absurd hlink (hlinks _ _)
    · exact ih (splitOn '/' target ++ before') (by rw [hrest, List.append_assoc])

/-- A path still denotes its place in a tree that is another one at a single place, where a file is
now and neither a directory nor a link was before. -/
lemma Follows.keeps {out : Trail} (hdirectory : t.node? out ≠ some .directory)
    (hlinks : ∀ target, t.node? out ≠ some (.link target))
    (hsame : ∀ q, q ≠ out → t'.node? q = t.node? q) {content : ByteArray}
    (hnew : t'.node? out = some (.file content)) (h : Follows t false links place pieces q) :
    Follows t' false links place pieces q := by
  have hkept {place : Trail} {node : FileNode} (hnode : t.node? place = some node)
      (hne : place ≠ out) : t'.node? place = some node := by rw [hsame place hne, hnode]
  have hdir' {place : Trail} (hdir : t.node? place = some .directory) :
      t'.node? place = some .directory := by
    refine hkept hdir ?_
    rintro rfl
    exact hdirectory hdir
  induction h with
  | done => exact .done
  | stay hdir hpiece _ ih => exact .stay (hdir' hdir) hpiece ih
  | up hdir _ ih => exact .up (hdir' hdir) ih
  | new _ _ _ hcreate => cases hcreate
  | @down _ place _ piece _ node hdir hpiece hnode hlink _ ih =>
    by_cases hout : place ++ [piece] = out
    · exact .down (hdir' hdir) hpiece (hout ▸ hnew) (by simp) ih
    · exact .down (hdir' hdir) hpiece (hkept hnode hout) hlink ih
  | link hdir hpiece hlink _ ih =>
    refine .link (hdir' hdir) hpiece (hkept hlink ?_) ih
    rintro rfl
    exact hlinks _ hlink

end Follows

/-! ## Reading what was not written -/

@[simp] lemma workingDir_put (place : Trail) (node : FileNode) :
    (t.put place node).workingDir = t.workingDir := by
  rw [put]
  split <;> rfl

/-- A path still denotes its place after a file was put where neither a directory nor a link was. -/
lemma locate_put {out : Trail} (hdirectory : t.node? out ≠ some .directory)
    (hlinks : ∀ target, t.node? out ≠ some (.link target)) (content : ByteArray) {p : Path}
    {place : Trail} (h : t.locate p = .ok place) :
    (t.put out (.file content)).locate p = .ok place := by
  have hroot : out ≠ [] := by
    rintro rfl
    exact hdirectory rfl
  have hput (q : Trail) := node?_put (t := t) (q := q) (.file content) hroot
  rw [locate, find] at h ⊢
  split at h
  next => cases h
  next hne =>
    have hkeeps := (follows_of_ok h).keeps hdirectory hlinks (fun q hq => by rw [hput, if_neg hq])
      (by rw [hput, if_pos rfl])
    rw [if_neg hne, workingDir_put]
    exact hkeeps.ok

/-- What writing does. -/
lemma exists_of_writeText {p : Path} {content : Text} (h : t.writeText p content = .ok t') :
    ∃ out, t.find true p = .ok out ∧ t.node? out ≠ some .directory ∧
      t' = t.put out (.file (encode content)) := by
  obtain ⟨out, hout, h⟩ := exists_of_bind_ok h
  split at h
  next => cases h
  next hnode => exact ⟨out, hout, hnode, (Except.ok.inj h).symm⟩

lemma readBytes_ok {p : Path} {content : ByteArray} :
    t.readBytes p = .ok content ↔
      ∃ place, t.locate p = .ok place ∧ t.node? place = some (.file content) := by
  constructor
  · intro h
    obtain ⟨place, hplace, h⟩ := exists_of_bind_ok h
    split at h
    next c hfile =>
      cases h
      exact ⟨place, hplace, hfile⟩
    next => cases h
    next => cases h
  · rintro ⟨place, hplace, hfile⟩
    simp only [readBytes, hplace, bind, Except.bind, hfile]
    rfl

/-- The pieces of a path that ends in a file name. -/
lemma find_join (create : Bool) (dir : Path) {name : Text} (hname : Path.IsFileName name) :
    ∃ pieces, ∀ t : FileTree, t.find create (dir.join name) =
      t.follow create maxLinks (if (dir.join name).isAbsolute then [] else t.workingDir)
        (pieces ++ [name]) := by
  obtain ⟨pieces, hpieces⟩ := Path.splitOn_join dir hname
  refine ⟨pieces, fun t => ?_⟩
  have hne : dir.join name ≠ [] := by
    rw [Path.join_eq dir hname.isAbsolute]
    exact List.append_ne_nil_of_right_ne_nil _ hname.1
  rw [find, if_neg hne, hpieces]

/-- No link in a tree has a name of a certain kind. -/
def HasNoLink (t : FileTree) (N : Text → Prop) : Prop :=
  ∀ place name target, N name → t.node? (place ++ [name]) ≠ some (.link target)

/-- **Other files keep their content.**  Where neither of two file names is that of a link, writing
to a path with the one leaves what is read from a path with the other. -/
theorem readBytes_writeText {N : Text → Prop} (ht : t.HasNoLink N) {dir dir' : Path}
    {name name' : Text} (hname : Path.IsFileName name) (hname' : Path.IsFileName name')
    (hN : N name) (hN' : N name') (hne : name ≠ name') {text : Text}
    (hwrite : t.writeText (dir.join name) text = .ok t') {content : ByteArray}
    (hread : t.readBytes (dir'.join name') = .ok content) :
    t'.readBytes (dir'.join name') = .ok content := by
  obtain ⟨out, hout, hnode, rfl⟩ := exists_of_writeText hwrite
  obtain ⟨pieces, hfind⟩ := find_join true dir hname
  obtain ⟨pieces', hfind'⟩ := find_join false dir' hname'
  obtain ⟨place, hlocate, hfile⟩ := readBytes_ok.1 hread
  have hplace := hlocate
  rw [hfind t] at hout
  rw [locate, hfind' t] at hplace
  have hlast := (follows_of_ok hout).getLast?_eq (isNamePiece_of_isFileName hname)
    (fun _ _ => ht _ _ _ hN) _ rfl
  have hlast' := (follows_of_ok hplace).getLast?_eq (isNamePiece_of_isFileName hname')
    (fun _ _ => ht _ _ _ hN') _ rfl
  have hroot : out ≠ [] := by
    rintro rfl
    cases hlast
  have hnolink (target : Path) : t.node? out ≠ some (.link target) := by
    obtain ⟨before, rfl⟩ := List.getLast?_eq_some_iff.1 hlast
    exact ht _ _ _ hN
  have hother : place ≠ out := by
    rintro rfl
    rw [hlast] at hlast'
    exact hne (Option.some.inj hlast')
  refine readBytes_ok.2 ⟨place, locate_put hnode hnolink _ hlocate, ?_⟩
  rw [node?_put _ hroot, if_neg hother, hfile]

/-- Writing puts a file, and no link. -/
lemma HasNoLink.writeText {N : Text → Prop} (ht : t.HasNoLink N) {p : Path} {text : Text}
    (hwrite : t.writeText p text = .ok t') : t'.HasNoLink N := by
  obtain ⟨out, -, hnode, rfl⟩ := exists_of_writeText hwrite
  have hroot : out ≠ [] := by
    rintro rfl
    exact hnode rfl
  intro place name target hN
  rw [node?_put _ hroot]
  split
  · simp
  · exact ht place name target hN

end FileTree

end Docmark
