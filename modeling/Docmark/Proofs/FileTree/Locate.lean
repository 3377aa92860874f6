import Mathlib
import Docmark.Proofs.FileTree.Listing
import Docmark.Proofs.Path.Descent
import Docmark.Proofs.Project.Writing

/-!
# Following paths without links

In a tree without links, the pieces of a path are followed one after the other, so that a path that
goes on from a directory is followed from the place of the directory.  The names on a way below a
directory lead to the place that has them behind that of the directory.

## Main results

* `FileTree.locate_join` — a path in a directory is followed from the place of the directory.
* `FileTree.locate_descend`, `FileTree.at?_descend` — names lead to the place behind them.
-/

namespace Docmark

namespace FileTree

/-- A tree without links. -/
def IsLinkless (t : FileTree) : Prop := ∀ n ∈ t.nodes, ∀ target, n.2 ≠ .link target

/-- The place where paths start that are seen from a directory.  The empty path is that of the
working directory here. -/
def base (t : FileTree) (dir : Path) : Except FileFault Trail :=
  if dir = [] then .ok t.workingDir else t.locate dir

variable {t : FileTree}

lemma IsLinkless.node?_ne (hlinks : t.IsLinkless) (place : Trail) (target : Path) :
    t.node? place ≠ some (.link target) := by
  intro hnode
  by_cases hne : place = []
  · rw [hne] at hnode
    cases hnode
  · exact hlinks _ (mem_nodes_of_node? hne hnode) target rfl

/-- Something stands where following pieces ends. -/
lemma Follows.isSome (ht : t.IsTree) {links : Nat} {place q : Trail} {pieces : List Text}
    (h : Follows t false links place pieces q)
    (hstart : pieces ≠ [] ∨ (t.node? place).isSome = true) : (t.node? q).isSome = true := by
  induction h with
  | done => exact hstart.resolve_left (by simp)
  | stay hdir _ _ ih => exact ih (.inr (by rw [hdir]; rfl))
  | up hdir _ ih => exact ih (.inr (by rw [ht.node?_dropLast (by rw [hdir]; rfl)]; rfl))
  | new _ _ _ hcreate => cases hcreate
  | down _ _ hnode _ _ ih => exact ih (.inr (by rw [hnode]; rfl))
  | @link _ _ _ _ _ target hdir _ _ _ ih =>
    refine ih (.inr ?_)
    split
    next => rfl
    next => rw [hdir]; rfl

lemma isSome_of_locate (ht : t.IsTree) {p : Path} {place : Trail} (h : t.locate p = .ok place) :
    (t.node? place).isSome = true := by
  rw [locate, find] at h
  split at h
  next => cases h
  next => exact (follows_of_ok h).isSome ht (.inl (splitOn_ne_nil p))

section Linkless

variable (hlinks : t.IsLinkless)

include hlinks

/-- **One piece after the other.** -/
lemma follow_append (links : Nat) (place : Trail) (pieces rest : List Text) :
    t.follow false links place (pieces ++ rest) =
      t.follow false links place pieces >>= fun q => t.follow false links q rest := by
  induction pieces generalizing place with
  | nil =>
    rw [List.nil_append, follow.eq_1]
    rfl
  | cons piece pieces ih =>
    rw [List.cons_append, follow, follow]
    cases hnode : t.node? place with
    | none => rfl
    | some node =>
      cases node with
      | file => rfl
      | link => rfl
      | directory =>
        by_cases hvoid : piece = [] ∨ piece = ['.']
        · simp only [if_pos hvoid, ih]
        by_cases hdots : piece = ['.', '.']
        · simp only [if_neg hvoid, if_pos hdots, ih]
        simp only [if_neg hvoid, if_neg hdots, Bool.false_eq_true, false_and, if_false]
        cases hnext : t.node? (place ++ [piece]) with
        | none => rfl
        | some next =>
          cases next with
          | link target => exact absurd hnext (hlinks.node?_ne _ target)
          | file => exact ih _
          | directory => exact ih _

/-- **Going on from a directory.**  A path that is seen from a directory is followed from its
place. -/
lemma locate_join (dir : Path) {q : Path} (hq : q.isAbsolute = false) (hne : dir ≠ [] ∨ q ≠ []) :
    t.locate (dir.join q) =
      t.base dir >>= fun place => t.follow false maxLinks place (splitOn '/' q) := by
  rw [locate, find, Path.isAbsolute_join dir hq, Path.join_eq dir hq]
  rcases dir.opening_eq with ⟨hopening, rfl⟩ | ⟨b, hopening, hdir⟩
  · rw [hopening, List.nil_append, if_neg (hne.resolve_left (by simp))]
    rfl
  have hdirne : dir ≠ [] := by
    rintro rfl
    simp [Path.opening] at hopening
  rw [hopening, if_neg (by simp), List.append_assoc, List.singleton_append, splitOn_append,
    follow_append hlinks, base, if_neg hdirne, locate, find, if_neg hdirne]
  rcases hdir with rfl | rfl
  · rfl
  · -- the piece behind the slash at the end only asks for a directory
    have hslash (place : Trail) : t.follow false maxLinks place (splitOn '/' q) =
        t.follow false maxLinks place [[]] >>= fun place =>
          t.follow false maxLinks place (splitOn '/' q) := by
      obtain ⟨piece, rest, hpieces⟩ := List.exists_cons_of_ne_nil (@splitOn_ne_nil '/' q)
      rw [hpieces, ← follow_append hlinks, List.singleton_append, follow.eq_def _ _ _ _ ([] :: _)]
      cases hnode : t.node? place with
      | none => simp only [follow, hnode]
      | some node => cases node <;> simp only [follow, hnode, true_or, if_true]
    have hpieces : splitOn '/' (b ++ ['/']) = splitOn '/' b ++ [[]] := splitOn_append b []
    rw [hpieces, follow_append hlinks, bind_assoc]
    exact congrArg _ (funext hslash)

lemma follow_name (links : Nat) {place q : Trail} {name : Text} (hname : Path.IsName name) :
    t.follow false links place [name] = .ok q ↔
      q = place ++ [name] ∧ t.node? place = some .directory ∧ (t.node? q).isSome = true := by
  obtain ⟨hne, hdot, hdots, -⟩ := hname
  have hhere {node : FileNode} (hnext : t.node? (place ++ [name]) = some node) :
      t.follow false links (place ++ [name]) [] = .ok q ↔
        q = place ++ [name] ∧ (t.node? q).isSome = true := by
    rw [follow.eq_1, Except.ok.injEq]
    constructor
    · rintro rfl
      exact ⟨rfl, by rw [hnext]; rfl⟩
    · exact fun h => h.1.symm
  rw [follow]
  cases hnode : t.node? place with
  | none => simp
  | some node =>
    cases node with
    | file => simp
    | link => simp
    | directory =>
      simp only [hne, hdot, hdots, or_self, if_false, Bool.false_eq_true, false_and, true_and]
      cases hnext : t.node? (place ++ [name]) with
      | none =>
        refine ⟨nofun, ?_⟩
        rintro ⟨rfl, hsome⟩
        rw [hnext] at hsome
        cases hsome
      | some next =>
        cases next with
        | link target => exact absurd hnext (hlinks.node?_ne _ target)
        | file => exact hhere hnext
        | directory => exact hhere hnext

/-- **Names lead on.**  The names on a way below a directory lead to the place behind it, if
something stands there. -/
lemma locate_descend (ht : t.IsTree) {dir : Path} {here : Trail} (hhere : t.locate dir = .ok here)
    {names : List Text} (hnames : ∀ name ∈ names, Path.IsName name) {place : Trail} :
    t.locate (dir.descend names) = .ok place ↔
      place = here ++ names ∧ (t.node? place).isSome = true := by
  have hdir : dir ≠ [] := by
    rintro rfl
    cases hhere
  induction names using List.reverseRecOn generalizing place with
  | nil =>
    rw [Path.descend_nil, hhere, Except.ok.injEq, List.append_nil]
    constructor
    · rintro rfl
      exact ⟨rfl, isSome_of_locate ht hhere⟩
    · exact fun h => h.1.symm
  | append_singleton names name ih =>
    have hname : Path.IsName name := hnames name (by simp)
    have hlead {place : Trail} : t.locate (dir.descend names) = .ok place ↔
        place = here ++ names ∧ (t.node? place).isSome = true :=
      ih fun s hs => hnames s (List.mem_append_left _ hs)
    have hne := Path.descend_ne_nil hdir fun s hs => hnames s (List.mem_append_left _ hs)
    rw [Path.descend_concat, locate_join hlinks _ hname.isAbsolute (.inl hne), hname.splitOn, base,
      if_neg hne, ← List.append_assoc]
    constructor
    · intro h
      obtain ⟨above, habove, h⟩ := exists_of_bind_ok h
      obtain ⟨rfl, -⟩ := hlead.1 habove
      obtain ⟨rfl, -, hsome⟩ := (follow_name hlinks maxLinks hname).1 h
      exact ⟨rfl, hsome⟩
    · rintro ⟨rfl, hsome⟩
      have habove := ht.node?_dropLast hsome
      rw [List.dropLast_concat] at habove
      rw [hlead.2 ⟨rfl, by rw [habove]; rfl⟩]
      exact (follow_name hlinks maxLinks hname).2 ⟨rfl, habove, hsome⟩

/-- What names lead to stands behind the directory. -/
lemma at?_descend (ht : t.IsTree) {dir : Path} {here : Trail} (hhere : t.locate dir = .ok here)
    {names : List Text} (hnames : ∀ name ∈ names, Path.IsName name) :
    t.at? (dir.descend names) = t.node? (here ++ names) := by
  rw [at?]
  cases hplace : t.locate (dir.descend names) with
  | ok place => rw [((locate_descend hlinks ht hhere hnames).1 hplace).1]
  | error e =>
    by_contra hne
    have hsome := Option.isSome_iff_ne_none.2 (Ne.symm hne)
    rw [(locate_descend hlinks ht hhere hnames).2 ⟨rfl, hsome⟩] at hplace
    cases hplace

end Linkless

end FileTree

end Docmark
