import Mathlib
import Docmark.Proofs.Path.Place

/-!
# Descending from a directory

The path that some names lead to from a directory, and its components: those of the directory, and
then the names.  So the names can be told from the path, and they are what is left of it as seen
from the directory.

## Main results

* `Path.components_descend` — the components of a path below a directory.
* `Path.descend_inj` — different ways lead to different paths.
* `Path.below?_descend` — a path below a directory as seen from it.
* `Path.exists_parent?` — the way back from a file to its directory.
-/

namespace Docmark

namespace Path

/-- The path that some names lead to from a directory. -/
def descend (dir : Path) (way : List Text) : Path := way.foldl join dir

@[simp] lemma descend_nil (dir : Path) : dir.descend [] = dir := rfl

@[simp] lemma descend_cons (dir : Path) (name : Text) (way : List Text) :
    dir.descend (name :: way) = (dir.join name).descend way := rfl

lemma descend_concat (dir : Path) (way : List Text) (name : Text) :
    dir.descend (way ++ [name]) = (dir.descend way).join name := by
  simp [descend]

/-! ## Names -/

lemma IsName.isAbsolute {s : Text} (h : IsName s) : isAbsolute s = false :=
  isAbsolute_of_notMem h.2.2.2

lemma IsName.splitOn {s : Text} (h : IsName s) : splitOn '/' s = [s] := splitOn_of_notMem h.2.2.2

lemma IsName.pieceComponent? {s : Text} (h : IsName s) : pieceComponent? s = some (.name s) :=
  pieceComponent?_text (.name h)

lemma IsName.steps {s : Text} (h : IsName s) : Path.steps s = [.name s] := by
  rw [Path.steps, h.splitOn]
  simp [h.pieceComponent?]

lemma join_ne_nil (dir : Path) {name : Text} (hname : IsName name) : dir.join name ≠ [] := by
  rw [join_eq dir hname.isAbsolute]
  exact List.append_ne_nil_of_right_ne_nil _ hname.1

lemma descend_ne_nil {dir : Path} (hdir : dir ≠ []) {way : List Text}
    (hway : ∀ s ∈ way, IsName s) : dir.descend way ≠ [] := by
  induction way generalizing dir with
  | nil => exact hdir
  | cons name way ih =>
    rw [List.forall_mem_cons] at hway
    exact ih (dir.join_ne_nil hway.1) hway.2

/-! ## Components -/

lemma head?_splitOn_append (as bs : Text) :
    (splitOn '/' (as ++ '/' :: bs)).head? = (splitOn '/' as).head? := by
  rw [splitOn_append, List.head?_append_of_ne_nil _ (splitOn_ne_nil as)]

/-- A name that is joined to a directory does not change what stands in front. -/
lemma lead_join (dir : Path) {name : Text} (hname : IsName name) :
    (dir.join name).lead = dir.lead := by
  rw [lead, lead, isAbsolute_join dir hname.isAbsolute, join_eq dir hname.isAbsolute]
  rcases dir.opening_eq with ⟨hopening, rfl⟩ | ⟨b, hopening, hdir⟩
  · have hnot : ¬ some name = some ['.'] := fun h => hname.2.1 (Option.some.inj h)
    rw [hopening, List.nil_append, hname.splitOn, List.head?_cons, if_neg hnot]
    rfl
  · rw [hopening, List.append_assoc, List.singleton_append, head?_splitOn_append]
    rcases hdir with rfl | rfl
    · rfl
    · rw [head?_splitOn_append]

lemma components_join (dir : Path) {name : Text} (hname : IsName name) :
    (dir.join name).components = dir.components ++ [.name name] := by
  rw [components_eq, lead_join dir hname, steps_join dir hname.isAbsolute, hname.steps,
    components_eq, List.append_assoc]

/-- **The components of a path below a directory** are those of the directory and the names on the
way. -/
lemma components_descend (dir : Path) {way : List Text} (hway : ∀ s ∈ way, IsName s) :
    (dir.descend way).components = dir.components ++ way.map .name := by
  induction way generalizing dir with
  | nil => simp
  | cons name way ih =>
    rw [List.forall_mem_cons] at hway
    rw [descend_cons, ih _ hway.2, components_join dir hway.1]
    simp

/-- **Different ways, different paths.** -/
lemma descend_inj (dir : Path) {way way' : List Text} (hway : ∀ s ∈ way, IsName s)
    (hway' : ∀ s ∈ way', IsName s)
    (h : (dir.descend way).components = (dir.descend way').components) : way = way' := by
  rw [components_descend dir hway, components_descend dir hway'] at h
  have hinj : Function.Injective Component.name := fun s s' h => Component.name.inj h
  exact hinj.list_map (List.append_cancel_left h)

/-! ## Seen from the directory -/

/-- A way of names stands behind the directory, with slashes between the names. -/
lemma descend_eq (dir : Path) {way : List Text} (hne : way ≠ []) (hway : ∀ s ∈ way, IsName s) :
    dir.descend way = dir.opening ++ List.intercalate ['/'] way := by
  induction way generalizing dir with
  | nil => exact absurd rfl hne
  | cons name way ih =>
    rw [List.forall_mem_cons] at hway
    rw [descend_cons]
    cases way with
    | nil =>
      rw [descend_nil, join_eq dir hway.1.isAbsolute]
      simp [List.intercalate]
    | cons next way =>
      have hend : (dir.join name).opening = dir.join name ++ ['/'] := by
        rw [opening, if_neg]
        rintro (hnil | hlast)
        · exact dir.join_ne_nil hway.1 hnil
        · rw [join_eq dir hway.1.isAbsolute, List.getLast?_append_of_ne_nil _ hway.1.1] at hlast
          exact hway.1.2.2.2 (List.mem_of_getLast? hlast)
      rw [ih _ (by simp) hway.2, hend, join_eq dir hway.1.isAbsolute, intercalate_cons_cons]
      simp

/-- Where the components of some pieces are dropped, only pieces without one are left of them. -/
lemma exists_dropComponents (pieces rest : List Text) :
    ∃ voids : List Text, (∀ s ∈ voids, s = [] ∨ s = ['.']) ∧
      dropComponents false (pieces.filterMap pieceComponent?).length (pieces ++ rest) =
        voids ++ rest := by
  induction pieces with
  | nil => exact ⟨[], by simp, by cases rest <;> rfl⟩
  | cons piece pieces ih =>
    obtain ⟨voids, hvoids, hdrop⟩ := ih
    rw [List.cons_append]
    cases hpiece : pieceComponent? piece with
    | some c =>
      rw [List.filterMap_cons_some hpiece, List.length_cons, dropComponents]
      exact ⟨voids, hvoids, by simpa [hpiece] using hdrop⟩
    | none =>
      have hvoid : piece = [] ∨ piece = ['.'] := by
        by_contra hnot
        rw [pieceComponent?, if_neg hnot] at hpiece
        split at hpiece <;> cases hpiece
      rw [List.filterMap_cons_none hpiece]
      cases hcount : (pieces.filterMap pieceComponent?).length with
      | zero =>
        rw [hcount] at hdrop
        refine ⟨piece :: voids, List.forall_mem_cons.2 ⟨hvoid, hvoids⟩, ?_⟩
        rw [dropComponents] at hdrop ⊢
        rw [hdrop, List.cons_append]
      | succ n =>
        rw [hcount] at hdrop
        rw [dropComponents]
        exact ⟨voids, hvoids, by simpa [hpiece] using hdrop⟩

/-- The first piece of a path is a component, whatever it is. -/
lemma length_components {p : Path} (hp : p ≠ []) {first : Text} {rest : List Text}
    (hpieces : splitOn '/' p = first :: rest) :
    p.components.length = (rest.filterMap pieceComponent?).length + 1 := by
  rw [components, hpieces]
  dsimp only
  by_cases habs : p.isAbsolute = true
  · rw [if_pos habs, List.length_cons]
  by_cases hdot : first = ['.']
  · rw [if_neg habs, if_pos hdot, List.length_cons]
  have hfirst : first ≠ [] := by
    rintro rfl
    cases p with
    | nil => exact hp rfl
    | cons c p =>
      have hslash : c ≠ '/' := by
        rintro rfl
        exact habs rfl
      rw [splitOn, if_neg hslash] at hpieces
      split at hpieces <;> simp at hpieces
  by_cases hdots : first = ['.', '.'] <;>
    simp [habs, hdot, pieceComponent?, hfirst, hdots]

lemma dropWhile_void {ps qs : List Text} (hps : ∀ s ∈ ps, s = [] ∨ s = ['.'])
    (hqs : ∀ s ∈ qs, IsName s) :
    (ps ++ qs).dropWhile (fun piece => decide (piece = [] ∨ piece = ['.'])) = qs := by
  rw [List.dropWhile_append_of_pos (by simpa using hps)]
  cases qs with
  | nil => rfl
  | cons q qs =>
    obtain ⟨hne, hdot, -⟩ := hqs q List.mem_cons_self
    simp [hne, hdot]

/-- **Seen from the directory**, a path below it is written with the names of its way. -/
lemma below?_descend {dir : Path} (hdir : dir ≠ []) {way : List Text} (hne : way ≠ [])
    (hway : ∀ s ∈ way, IsName s) :
    (dir.descend way).below? dir = some (List.intercalate ['/'] way) := by
  obtain ⟨first, rest, hpieces, hcount⟩ : ∃ first rest,
      splitOn '/' (dir.descend way) = first :: (rest ++ way) ∧
        dir.components.length = (rest.filterMap pieceComponent?).length + 1 := by
    rcases dir.opening_eq with ⟨-, hnil⟩ | ⟨b, hopening, hb⟩
    · exact absurd hnil hdir
    obtain ⟨first, rest, hfirst⟩ := List.exists_cons_of_ne_nil (@splitOn_ne_nil '/' b)
    refine ⟨first, rest, ?_, ?_⟩
    · rw [descend_eq dir hne hway, hopening, List.append_assoc, List.singleton_append,
        splitOn_append, hfirst, splitOn_intercalate hne fun s hs => (hway s hs).2.2.2,
        List.cons_append]
    · rcases hb with rfl | rfl
      · exact length_components hdir hfirst
      · have hslash : splitOn '/' (b ++ ['/']) = first :: (rest ++ [[]]) := by
          rw [splitOn_append, hfirst]
          rfl
        rw [length_components hdir hslash, List.filterMap_append]
        simp [pieceComponent?]
  have hprefix : dir.components.isPrefixOf (dir.descend way).components = true := by
    rw [components_descend dir hway, List.isPrefixOf_iff_prefix]
    exact List.prefix_append _ _
  obtain ⟨voids, hvoids, hdrop⟩ := exists_dropComponents rest way
  have hstart : dropComponents true ((rest.filterMap pieceComponent?).length + 1)
      (splitOn '/' (dir.descend way)) = voids ++ way := by
    rw [hpieces, dropComponents, ← hdrop]
    by_cases hvoid : first = [] ∨ first = ['.']
    · simp [pieceComponent?, hvoid]
    · by_cases hdots : first = ['.', '.'] <;> simp [pieceComponent?, hvoid, hdots]
  have hreverse : way.reverse.dropWhile (fun piece => decide (piece = [] ∨ piece = ['.'])) =
      way.reverse := by
    have hnone := @dropWhile_void [] way.reverse (by simp) (by simpa using hway)
    exact hnone
  rw [below?, if_pos hprefix]
  simp only [hcount, Nat.add_one_ne_zero, if_false, hstart, dropWhile_void hvoids hway, hreverse,
    List.reverse_reverse]

/-! ## The directory of a file -/

lemma steps_text {c : Component} (hc : c.IsStep) : steps c.text = [c] := by
  rw [steps, splitOn_of_notMem hc.text_spec.2.2]
  simp [pieceComponent?_text hc]

lemma Component.IsStep.isAbsolute_text {c : Component} (hc : c.IsStep) :
    isAbsolute c.text = false := isAbsolute_of_notMem hc.text_spec.2.2

/-- Steps that are pushed one after the other stand behind those of the path. -/
lemma foldl_push (p : Path) {cs : List Component} (hcs : ∀ c ∈ cs, c.IsStep) :
    (cs.foldl (fun p c => p.push c.text) p).isAbsolute = p.isAbsolute ∧
      (cs.foldl (fun p c => p.push c.text) p).steps = p.steps ++ cs := by
  induction cs generalizing p with
  | nil => exact ⟨rfl, (List.append_nil _).symm⟩
  | cons c cs ih =>
    rw [List.forall_mem_cons] at hcs
    obtain ⟨habs, hsteps⟩ := ih (p.join c.text) hcs.2
    rw [isAbsolute_join p hcs.1.isAbsolute_text] at habs
    rw [steps_join p hcs.1.isAbsolute_text, steps_text hcs.1, List.append_assoc] at hsteps
    exact ⟨habs, hsteps⟩

/-- **The directory of a file** has all steps of the file's path but the last one. -/
lemma exists_parent? {p : Path} {above : List Component} {name : Text}
    (h : p.steps = above ++ [.name name]) :
    ∃ dir, p.parent? = some dir ∧ dir.isAbsolute = p.isAbsolute ∧ dir.steps = above := by
  have habove : ∀ c ∈ above, c.IsStep := fun c hc =>
    p.steps_isStep c (by rw [h]; exact List.mem_append_left _ hc)
  have hparent : p.parent? = some (ofComponents (p.lead ++ above)) := by
    rw [parent?, components_eq, h, ← List.append_assoc, List.reverse_append, List.reverse_singleton,
      List.singleton_append]
    simp
  obtain ⟨hlead, hleadsteps⟩ :
      (ofComponents p.lead).isAbsolute = p.isAbsolute ∧ (ofComponents p.lead).steps = [] := by
    rw [lead]
    by_cases habs : p.isAbsolute = true
    · rw [if_pos habs, habs]
      decide
    · rw [if_neg habs, Bool.eq_false_iff.2 habs]
      split <;> decide
  obtain ⟨hdirabs, hdirsteps⟩ := foldl_push (ofComponents p.lead) habove
  refine ⟨_, hparent, ?_, ?_⟩
  · rw [ofComponents, List.foldl_append]
    exact hdirabs.trans hlead
  · rw [ofComponents, List.foldl_append]
    exact hdirsteps.trans (by rw [hleadsteps, List.nil_append])

end Path

end Docmark
