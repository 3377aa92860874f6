import Mathlib
import Docmark.FileTree
import Docmark.Proofs.Path.Place

/-!
# What a file tree lists

A tree as file systems have them (`FileTree.IsTree`) lists each place once, under names, and in a
directory.  The names in a directory are those of the places behind it at which something stands,
and places of directories that are all different are no more than the tree has directories.

## Main results

* `FileTree.mem_names_iff`, `FileTree.IsTree.names_nodup` — what is listed in a directory.
* `FileTree.length_le_countDirs` — how many directories there can be.
* `FileTree.Relisted` — the same tree, listed in another order.
* `FileTree.IsTree.exists_relisted` — every order is that of a tree.
-/

namespace Docmark

namespace FileTree

/-- A tree as file systems have them: each place is listed once, by a way of names, and what holds
it is a directory. -/
structure IsTree (t : FileTree) : Prop where
  isName : ∀ n ∈ t.nodes, ∀ s ∈ n.1, Path.IsName s
  nodup : (t.nodes.map Prod.fst).Nodup
  parent : ∀ n ∈ t.nodes, t.node? n.1.dropLast = some .directory

variable {t t' : FileTree}

instance (name : Text) : Decidable (Path.IsName name) :=
  inferInstanceAs (Decidable (name ≠ [] ∧ name ≠ ['.'] ∧ name ≠ ['.', '.'] ∧ '/' ∉ name))

instance (node : Option FileNode) : Decidable (node = some .directory) :=
  match node with
  | some .directory => isTrue rfl
  | some (.file _) => isFalse nofun
  | some (.link _) => isFalse nofun
  | none => isFalse nofun

instance (t : FileTree) : Decidable t.IsTree :=
  decidable_of_iff ((∀ n ∈ t.nodes, ∀ s ∈ n.1, Path.IsName s) ∧ (t.nodes.map Prod.fst).Nodup ∧
    ∀ n ∈ t.nodes, t.node? n.1.dropLast = some .directory)
    ⟨fun ⟨isName, nodup, parent⟩ => ⟨isName, nodup, parent⟩, fun h => ⟨h.isName, h.nodup, h.parent⟩⟩

/-! ## Places -/

lemma node?_of_ne_nil {place : Trail} (h : place ≠ []) : t.node? place = t.nodes.lookup place := by
  rw [node?, if_neg (by simpa using h)]

lemma mem_nodes_of_node? {place : Trail} {node : FileNode} (hne : place ≠ [])
    (h : t.node? place = some node) : (place, node) ∈ t.nodes := by
  rw [node?_of_ne_nil hne] at h
  obtain ⟨before, after, hnodes, -⟩ := List.lookup_eq_some_iff.1 h
  rw [hnodes]
  simp

lemma isSome_node?_iff {place : Trail} (hne : place ≠ []) :
    (t.node? place).isSome = true ↔ ∃ node, (place, node) ∈ t.nodes := by
  constructor
  · intro h
    obtain ⟨node, hnode⟩ := Option.isSome_iff_exists.1 h
    exact ⟨node, mem_nodes_of_node? hne hnode⟩
  · rintro ⟨node, hmem⟩
    rw [node?_of_ne_nil hne]
    by_contra hnone
    rw [Option.not_isSome_iff_eq_none, List.lookup_eq_none_iff] at hnone
    simpa using hnone _ hmem

/-! ## Listings -/

/-- A name is listed in a directory if something stands behind the directory under the name. -/
lemma mem_names_iff {dir : Trail} {name : Text} :
    name ∈ t.names dir ↔ (t.node? (dir ++ [name])).isSome = true := by
  rw [isSome_node?_iff (by simp), names, List.mem_filterMap]
  constructor
  · rintro ⟨⟨place, node⟩, hmem, hname⟩
    dsimp only at hname
    split at hname
    next hdir =>
      refine ⟨node, ?_⟩
      rwa [← hdir, List.dropLast_append_getLast? name hname]
    next => cases hname
  · rintro ⟨node, hmem⟩
    exact ⟨_, hmem, by simp⟩

/-- Nothing is listed twice. -/
lemma IsTree.names_nodup (ht : t.IsTree) (dir : Trail) : (t.names dir).Nodup := by
  have hkeys : t.names dir = (t.nodes.map Prod.fst).filterMap fun place =>
      if place.dropLast = dir then place.getLast? else none := by
    rw [names, List.filterMap_map]
    rfl
  rw [hkeys]
  refine ht.nodup.filterMap fun place place' name hname hname' => ?_
  rw [Option.mem_def] at hname hname'
  split at hname
  next hdir =>
    split at hname'
    next hdir' =>
      rw [← List.dropLast_append_getLast? name hname, hdir, ← hdir',
        List.dropLast_append_getLast? name hname']
    next => cases hname'
  next => cases hname

lemma IsTree.isName_of_mem_names (ht : t.IsTree) {dir : Trail} {name : Text}
    (h : name ∈ t.names dir) : Path.IsName name := by
  obtain ⟨node, hmem⟩ := (isSome_node?_iff (by simp)).1 (mem_names_iff.1 h)
  exact ht.isName _ hmem name (by simp)

/-- Something stands in a directory only. -/
lemma IsTree.node?_dropLast (ht : t.IsTree) {place : Trail}
    (h : (t.node? place).isSome = true) : t.node? place.dropLast = some .directory := by
  by_cases hne : place = []
  · rw [hne]
    rfl
  · obtain ⟨node, hmem⟩ := (isSome_node?_iff hne).1 h
    exact ht.parent _ hmem

/-- **Counting directories.**  Different places of directories are no more than there are
directories in the tree. -/
lemma length_le_countDirs {places : List Trail} (hnodup : places.Nodup)
    (hdir : ∀ place ∈ places, t.node? place = some .directory) : places.length ≤ t.countDirs := by
  obtain ⟨isDirectory, hdirectory, hcount⟩ : ∃ isDirectory : Trail × FileNode → Bool,
      (∀ place, isDirectory (place, .directory) = true) ∧
        t.countDirs = 1 + t.nodes.countP isDirectory := by
    refine ⟨_, ?_, rfl⟩
    exact fun _ => rfl
  have hsub : places ⊆ [] :: (t.nodes.filter isDirectory).map Prod.fst := by
    intro place hplace
    by_cases hne : place = []
    · rw [hne]
      exact List.mem_cons_self
    · have hmem := mem_nodes_of_node? hne (hdir place hplace)
      exact List.mem_cons_of_mem _
        (List.mem_map.2 ⟨_, List.mem_filter.2 ⟨hmem, hdirectory place⟩, rfl⟩)
  calc places.length
      ≤ ([] :: (t.nodes.filter isDirectory).map Prod.fst).length := hnodup.length_le_of_subset hsub
    _ = t.countDirs := by
        rw [List.length_cons, List.length_map, ← List.countP_eq_length_filter, Nat.add_comm, hcount]

/-! ## Other orders -/

/-- Two trees with the same at each place.  In what order the entries of a directory are listed may
differ. -/
structure Relisted (t t' : FileTree) : Prop where
  workingDir : t'.workingDir = t.workingDir
  node : ∀ place, t'.node? place = t.node? place

namespace Relisted

variable (h : Relisted t t')

include h

lemma symm : Relisted t' t := ⟨h.workingDir.symm, fun place => (h.node place).symm⟩

lemma names_perm (ht : t.IsTree) (ht' : t'.IsTree) (dir : Trail) :
    (t'.names dir).Perm (t.names dir) := by
  refine (List.perm_ext_iff_of_nodup (ht'.names_nodup dir) (ht.names_nodup dir)).2 fun name => ?_
  rw [mem_names_iff, mem_names_iff, h.node]

/-- A path leads to the same place. -/
lemma follow_eq (create : Bool) (links : Nat) (place : Trail) (pieces : List Text) :
    t'.follow create links place pieces = t.follow create links place pieces := by
  induction links, place, pieces using follow.induct t create with
  | case1 => rw [follow, follow]
  | case9 links place piece rest hdir =>
    rw [follow, follow, h.node]
    split
    next hdirectory => exact (hdir hdirectory).elim
    next => rfl
  | _ => simp_all [follow, h.node]

lemma locate_eq (p : Path) : t'.locate p = t.locate p := by
  simp only [locate, find, h.workingDir, h.follow_eq]

lemma at?_eq (p : Path) : t'.at? p = t.at? p := by
  simp only [at?, h.locate_eq, h.node]

lemma isDir_eq (p : Path) : t'.isDir p = t.isDir p := by rw [isDir, isDir, h.at?_eq]

lemma isFile_eq (p : Path) : t'.isFile p = t.isFile p := by rw [isFile, isFile, h.at?_eq]

lemma size?_eq (p : Path) : t'.size? p = t.size? p := by rw [size?, size?, h.at?_eq]

lemma readBytes_eq (p : Path) : t'.readBytes p = t.readBytes p := by
  simp only [readBytes, h.locate_eq, h.node]

end Relisted

/-- The tree with what stands in some directories, where each lists the names that an order
gives. -/
def listed (t : FileTree) (dirs : List Trail) (order : Trail → List Text) : FileTree where
  nodes := dirs.flatMap fun dir => (order dir).filterMap fun name =>
    (t.node? (dir ++ [name])).map fun node => (dir ++ [name], node)
  workingDir := t.workingDir

section Listed

variable {dirs : List Trail} {order : Trail → List Text}

lemma mem_nodes_listed {n : Trail × FileNode} :
    n ∈ (t.listed dirs order).nodes ↔
      ∃ dir ∈ dirs, ∃ name ∈ order dir, n.1 = dir ++ [name] ∧ t.node? n.1 = some n.2 := by
  simp only [listed, List.mem_flatMap, List.mem_filterMap, Option.map_eq_some_iff]
  refine exists_congr fun dir => and_congr_right fun _ => exists_congr fun name =>
    and_congr_right fun _ => ⟨?_, ?_⟩
  · rintro ⟨node, hnode, rfl⟩
    exact ⟨rfl, hnode⟩
  · rintro ⟨hplace, hnode⟩
    exact ⟨n.2, hplace ▸ hnode, by rw [← hplace]⟩

lemma names_listed (hdirs : dirs.Nodup)
    (horder : ∀ dir, ∀ name ∈ order dir, (t.node? (dir ++ [name])).isSome = true) (dir : Trail) :
    (t.listed dirs order).names dir = if dir ∈ dirs then order dir else [] := by
  have hblock (above : Trail) :
      ((order above).filterMap fun name =>
        (t.node? (above ++ [name])).map fun node => (above ++ [name], node)).filterMap
          (fun n => if n.1.dropLast = dir then n.1.getLast? else none) =
      if above = dir then order dir else [] := by
    rw [List.filterMap_filterMap]
    by_cases h : above = dir
    · subst h
      rw [if_pos rfl]
      conv_rhs => rw [← List.filterMap_some (l := order above)]
      refine List.filterMap_congr fun name hname => ?_
      obtain ⟨node, hnode⟩ := Option.isSome_iff_exists.1 (horder above name hname)
      simp [hnode]
    · rw [if_neg h, List.filterMap_eq_nil_iff]
      intro name _
      cases t.node? (above ++ [name]) <;> simp [h]
  rw [names, listed, List.filterMap_flatMap]
  simp only [hblock]
  induction dirs with
  | nil => rfl
  | cons above dirs ih =>
    rw [List.nodup_cons] at hdirs
    rw [List.flatMap_cons, ih hdirs.2]
    by_cases h : above = dir
    · subst h
      simp [hdirs.1]
    · simp [h, Ne.symm h]

lemma nodup_listed (hdirs : dirs.Nodup) (horder : ∀ dir, (order dir).Nodup) :
    ((t.listed dirs order).nodes.map Prod.fst).Nodup := by
  rw [listed, List.map_flatMap, List.nodup_flatMap]
  simp only [List.map_filterMap, Option.map_map]
  have hkey (dir : Trail) (name : Text) (place : Trail)
      (h : (t.node? (dir ++ [name])).map (Prod.fst ∘ fun node => (dir ++ [name], node)) =
        some place) : place = dir ++ [name] := by
    obtain ⟨_, -, rfl⟩ := Option.map_eq_some_iff.1 h
    rfl
  refine ⟨fun dir _ => (horder dir).filterMap fun name name' place h h' => ?_,
    hdirs.imp fun {dir dir'} hne place h h' => ?_⟩
  · have heq := (hkey dir name place h).symm.trans (hkey dir name' place h')
    simpa using heq
  · obtain ⟨name, -, h⟩ := List.mem_filterMap.1 h
    obtain ⟨name', -, h'⟩ := List.mem_filterMap.1 h'
    have heq := (hkey dir name place h).symm.trans (hkey dir' name' place h')
    exact hne (List.append_inj_left' heq rfl)

end Listed

/-- **Every order is that of a tree.**  However the names in each directory of a tree are arranged,
there is a tree with the same at each place that lists them so. -/
theorem IsTree.exists_relisted (ht : t.IsTree) {order : Trail → List Text}
    (horder : ∀ dir, (order dir).Perm (t.names dir)) :
    ∃ t' : FileTree, t'.IsTree ∧ t.Relisted t' ∧ ∀ dir, t'.names dir = order dir := by
  let dirs : List Trail := (t.nodes.map fun n => n.1.dropLast).dedup
  have hmem {n : Trail × FileNode} : n ∈ (t.listed dirs order).nodes ↔
      n.1 ≠ [] ∧ t.node? n.1 = some n.2 := by
    rw [mem_nodes_listed]
    constructor
    · rintro ⟨dir, -, name, -, hplace, hnode⟩
      exact ⟨by simp [hplace], hnode⟩
    · rintro ⟨hne, hnode⟩
      have hplace := List.dropLast_append_getLast hne
      refine ⟨n.1.dropLast, ?_, n.1.getLast hne, ?_, hplace.symm, hnode⟩
      · exact List.mem_dedup.2 (List.mem_map_of_mem (mem_nodes_of_node? hne hnode))
      · rw [(horder _).mem_iff, mem_names_iff, hplace, hnode]
        rfl
  have hnode (place : Trail) : (t.listed dirs order).node? place = t.node? place := by
    by_cases hne : place = []
    · rw [hne]
      rfl
    · have hsome {node : FileNode} (h : (t.listed dirs order).node? place = some node) :
          t.node? place = some node := (hmem.1 (mem_nodes_of_node? hne h)).2
      cases h : (t.listed dirs order).node? place with
      | some node => exact (hsome h).symm
      | none =>
        by_contra hother
        obtain ⟨node, hnode⟩ := Option.ne_none_iff_exists'.1 (Ne.symm hother)
        have hlisted := (isSome_node?_iff hne).2 ⟨node, hmem.2 ⟨hne, hnode⟩⟩
        rw [h] at hlisted
        cases hlisted
  have hlisted (dir : Trail) (name : Text) (h : name ∈ order dir) :
      (t.node? (dir ++ [name])).isSome = true := mem_names_iff.1 ((horder dir).mem_iff.1 h)
  refine ⟨t.listed dirs order, ⟨fun n hn => ?_, ?_, fun n hn => ?_⟩, ⟨rfl, hnode⟩, fun dir => ?_⟩
  · obtain ⟨hne, hn⟩ := hmem.1 hn
    exact ht.isName _ (mem_nodes_of_node? hne hn)
  · exact nodup_listed (List.nodup_dedup _) fun dir =>
      (horder dir).nodup_iff.2 (ht.names_nodup dir)
  · obtain ⟨hne, hn⟩ := hmem.1 hn
    rw [hnode]
    exact ht.parent _ (mem_nodes_of_node? hne hn)
  · rw [names_listed (List.nodup_dedup _) hlisted, ite_eq_left_iff]
    intro hdir
    refine (List.eq_nil_iff_forall_not_mem.2 fun name hname => hdir ?_).symm
    obtain ⟨node, hnode⟩ := Option.isSome_iff_exists.1 (hlisted dir name hname)
    refine List.mem_dedup.2 (List.mem_map.2 ⟨_, mem_nodes_of_node? (by simp) hnode, ?_⟩)
    exact List.dropLast_concat

end FileTree

end Docmark
