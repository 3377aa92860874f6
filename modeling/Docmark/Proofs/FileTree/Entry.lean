import Mathlib
import Docmark.Proofs.FileTree.Parent
import Docmark.Proofs.Path.Descent
import Docmark.Proofs.Project.Writing

/-!
# Names in a directory

A path that denotes a directory may lead over links.  A path that goes on from there by a name
denotes the place of that name in the directory, if no link stands there, whether or not something
does.  So it is known beforehand where a text goes that is written to such a path, and texts that
are written to several of them go where they would go one by one.

## Main results

* `FileTree.find_entry` — the place of a name in a directory.
* `FileTree.IsDirAt.put` — directories stay where they are when a file is put somewhere.
* `FileTree.node?_putAll` — of several texts at one place the last one stays.
-/

namespace Docmark

namespace FileTree

variable {t t' : FileTree}

/-! ## Following a name -/

section Follows

variable {create : Bool} {links : Nat} {place q : Trail} {pieces : List Text}

/-- A name behind the pieces that lead to a directory leads to what stands there under the name, and
with `create` also to where nothing does. -/
lemma Follows.concat_name (h : Follows t false links place pieces q)
    (hdir : t.node? q = some .directory) {name : Text} (hname : IsNamePiece name)
    (hlink : ∀ target, t.node? (q ++ [name]) ≠ some (.link target))
    (hthere : create = true ∨ (t.node? (q ++ [name])).isSome = true) :
    Follows t create links place (pieces ++ [name]) (q ++ [name]) := by
  induction h with
  | @done links q =>
    cases hnode : t.node? (q ++ [name]) with
    | none =>
      rw [hnode] at hthere
      exact .new hdir hname hnode (hthere.resolve_right (by simp))
    | some node =>
      refine .down hdir hname hnode (fun target hnodelink => ?_) .done
      exact hlink target (hnode.trans (congrArg some hnodelink))
  | stay hdir' hpiece _ ih => exact .stay hdir' hpiece (ih hdir hlink hthere)
  | up hdir' _ ih => exact .up hdir' (ih hdir hlink hthere)
  | new _ _ _ hcreate => cases hcreate
  | down hdir' hpiece hnode hnolink _ ih =>
    exact .down hdir' hpiece hnode hnolink (ih hdir hlink hthere)
  | link hdir' hpiece hlink' _ ih =>
    refine .link hdir' hpiece hlink' ?_
    have hrest := ih hdir hlink hthere
    rwa [List.append_assoc] at hrest

/-- What pieces lead to without `create`, they lead to with it. -/
lemma Follows.creating (h : Follows t false links place pieces q) :
    Follows t true links place pieces q := by
  induction h with
  | done => exact .done
  | stay hdir hpiece _ ih => exact .stay hdir hpiece ih
  | up hdir _ ih => exact .up hdir ih
  | new _ _ _ hcreate => cases hcreate
  | down hdir hpiece hnode hnolink _ ih => exact .down hdir hpiece hnode hnolink ih
  | link hdir hpiece hlink _ ih => exact .link hdir hpiece hlink ih

lemma find_of_locate {p : Path} (h : t.locate p = .ok q) : t.find true p = .ok q := by
  rw [locate, find] at h
  split at h
  next => cases h
  next hne =>
    rw [find, if_neg hne]
    exact (follows_of_ok h).creating.ok

/-- A slash at the end of a path does not lead on. -/
lemma Follows.of_concat_nil (h : Follows t create links place pieces q) {before : List Text}
    (hpieces : pieces = before ++ [[]]) : Follows t create links place before q := by
  have hcases {piece : Text} {rest before : List Text} (h : piece :: rest = before ++ [[]]) :
      (piece = [] ∧ rest = [] ∧ before = []) ∨
        ∃ before', before = piece :: before' ∧ rest = before' ++ [[]] := by
    cases before with
    | nil => exact .inl (by simpa using h)
    | cons b before =>
      obtain ⟨rfl, hrest⟩ := List.cons.inj h
      exact .inr ⟨before, rfl, hrest⟩
  induction h generalizing before with
  | done => simp at hpieces
  | stay hdir hpiece h ih =>
    rcases hcases hpieces with ⟨-, rfl, rfl⟩ | ⟨before', rfl, hrest⟩
    · exact h
    · exact .stay hdir hpiece (ih hrest)
  | up hdir h ih =>
    rcases hcases hpieces with ⟨hnil, -, -⟩ | ⟨before', rfl, hrest⟩
    · cases hnil
    · exact .up hdir (ih hrest)
  | new hdir hpiece hnone hcreate =>
    rcases hcases hpieces with ⟨hnil, -, -⟩ | ⟨before', -, hrest⟩
    · exact absurd hnil hpiece.1
    · simp at hrest
  | down hdir hpiece hnode hnolink h ih =>
    rcases hcases hpieces with ⟨hnil, -, -⟩ | ⟨before', rfl, hrest⟩
    · exact absurd hnil hpiece.1
    · exact .down hdir hpiece hnode hnolink (ih hrest)
  | @link _ _ _ _ _ target hdir hpiece hlink h ih =>
    rcases hcases hpieces with ⟨hnil, -, -⟩ | ⟨before', rfl, hrest⟩
    · exact absurd hnil hpiece.1
    · exact .link hdir hpiece hlink (ih (by rw [hrest, List.append_assoc]))

end Follows

/-! ## Entries -/

/-- A path denotes a directory, which is at a place. -/
structure IsDirAt (t : FileTree) (dir : Path) (place : Trail) : Prop where
  located : t.locate dir = .ok place
  directory : t.node? place = some .directory

/-- **The place of a name in a directory.** -/
theorem find_entry {dir : Path} {place : Trail} (hdir : t.IsDirAt dir place) {name : Text}
    (hname : Path.IsFileName name)
    (hlink : ∀ target, t.node? (place ++ [name]) ≠ some (.link target)) {create : Bool}
    (hthere : create = true ∨ (t.node? (place ++ [name])).isSome = true) :
    t.find create (dir.join name) = .ok (place ++ [name]) := by
  have hlocate := hdir.located
  rw [locate, find] at hlocate
  split at hlocate
  next => cases hlocate
  next hne =>
    have hfollows := follows_of_ok hlocate
    obtain ⟨hopening, hnil⟩ | ⟨b, hopening, hb⟩ := dir.opening_eq
    · exact absurd hnil hne
    have hbefore : Follows t false maxLinks (if dir.isAbsolute then [] else t.workingDir)
        (splitOn '/' b) place := by
      rcases hb with hb | hb
      · rwa [hb] at hfollows ⊢
      · refine hfollows.of_concat_nil ?_
        rw [hb, splitOn_append]
        rfl
    have hpieces : splitOn '/' (dir.join name) = splitOn '/' b ++ [name] := by
      rw [Path.join_eq dir hname.isAbsolute, hopening, List.append_assoc, List.singleton_append,
        splitOn_append, hname.isName.splitOn]
    rw [find, if_neg (dir.join_ne_nil hname.isName), Path.isAbsolute_join dir hname.isAbsolute,
      hpieces]
    exact (hbefore.concat_name hdir.directory (isNamePiece_of_isFileName hname) hlink hthere).ok

/-- What stands under a name in a directory is what is read from the path. -/
lemma readText_entry {dir : Path} {place : Trail} (hdir : t.IsDirAt dir place) {name : Text}
    (hname : Path.IsFileName name) {text : Text}
    (hfile : t.node? (place ++ [name]) = some (.file (encode text))) :
    t.readText (dir.join name) = .ok text := by
  have hplace : t.find false (dir.join name) = .ok (place ++ [name]) :=
    find_entry hdir hname (by simp [hfile]) (.inr (by rw [hfile]; rfl))
  rw [readText, readBytes_ok.2 ⟨_, hplace, hfile⟩]
  simp only [bind, Except.bind, decode?_encode]
  rfl

/-! ## Putting files -/

/-- The tree with some texts in files, put there one after the other. -/
def putAll (t : FileTree) (pages : List (Trail × Text)) : FileTree :=
  pages.foldl (fun t page => t.put page.1 (.file (encode page.2))) t

/-- **Where the last text stays.**  Places without a text keep what they have, and of several texts
at one place the last one stays. -/
theorem node?_putAll {pages : List (Trail × Text)} (hpages : ∀ page ∈ pages, page.1 ≠ []) :
    (∀ q, q ∉ pages.map Prod.fst → (t.putAll pages).node? q = t.node? q) ∧
    ∀ before q text after, pages = before ++ (q, text) :: after → q ∉ after.map Prod.fst →
      (t.putAll pages).node? q = some (.file (encode text)) := by
  have hkeep {pages : List (Trail × Text)} (hpages : ∀ page ∈ pages, page.1 ≠ []) (q : Trail)
      (hq : q ∉ pages.map Prod.fst) (t : FileTree) : (t.putAll pages).node? q = t.node? q := by
    induction pages generalizing t with
    | nil => rfl
    | cons page pages ih =>
      rw [List.forall_mem_cons] at hpages
      rw [List.map_cons, List.mem_cons, not_or] at hq
      rw [putAll, List.foldl_cons, ← putAll, ih hpages.2 hq.2, node?_put _ hpages.1, if_neg hq.1]
  refine ⟨fun q hq => hkeep hpages q hq t, ?_⟩
  rintro before q text after rfl hq
  rw [List.forall_mem_append, List.forall_mem_cons] at hpages
  rw [putAll, List.foldl_append, List.foldl_cons, ← putAll, ← putAll,
    hkeep hpages.2.2 q hq, node?_put _ hpages.2.1, if_pos rfl]

/-- A place with a text has one of its texts. -/
lemma exists_node?_putAll {pages : List (Trail × Text)} (hpages : ∀ page ∈ pages, page.1 ≠ [])
    {q : Trail} (hq : q ∈ pages.map Prod.fst) :
    ∃ text, (t.putAll pages).node? q = some (.file (encode text)) := by
  induction pages generalizing t with
  | nil => cases hq
  | cons page pages ih =>
    by_cases hlater : q ∈ pages.map Prod.fst
    · exact ih (List.forall_mem_cons.1 hpages).2 hlater
    · obtain rfl : q = page.1 := (List.mem_cons.1 hq).resolve_right hlater
      exact ⟨page.2, (node?_putAll hpages).2 [] page.1 page.2 pages rfl hlater⟩

/-- **Directories stay where they are** when a file is put where neither a directory nor a link
was. -/
lemma IsDirAt.put {dir : Path} {place out : Trail} (hdir : t.IsDirAt dir place)
    (hdirectory : t.node? out ≠ some .directory)
    (hlink : ∀ target, t.node? out ≠ some (.link target)) (content : ByteArray) :
    (t.put out (.file content)).IsDirAt dir place := by
  have hroot : out ≠ [] := by
    rintro rfl
    exact hdirectory rfl
  refine ⟨locate_put hdirectory hlink content hdir.located, ?_⟩
  rw [node?_put _ hroot, if_neg, hdir.directory]
  rintro rfl
  exact hdirectory hdir.directory

end FileTree

end Docmark
