import Mathlib
import Docmark.Config.Basic
import Docmark.Proofs.Path.Place

/-!
# File names and their extensions

How a path with another extension is written, and which extension it then has: not the one that was
asked for, but what stands behind the last dot of it.

## Main results

* `Path.withExtension_join` — the path with another extension.
* `Path.extension?_withExtension` — the extension that it has.
-/

namespace Docmark

lemma intercalate_splitOn (sep : Char) (cs : Text) :
    List.intercalate [sep] (splitOn sep cs) = cs := by
  induction cs with
  | nil => rfl
  | cons c cs ih =>
    simp only [splitOn]
    split
    next hc =>
      cases hsplit : splitOn sep cs with
      | nil => exact absurd hsplit (splitOn_ne_nil cs)
      | cons w ws =>
        rw [intercalate_cons_cons, ← hsplit, ih, hc]
        rfl
    next =>
      cases hsplit : splitOn sep cs with
      | nil => exact absurd hsplit (splitOn_ne_nil cs)
      | cons w ws =>
        rw [hsplit] at ih
        cases ws with
        | nil => simpa [List.intercalate] using ih
        | cons v vs =>
          rw [intercalate_cons_cons] at ih ⊢
          rw [List.cons_append, ih]

namespace Path

/-! ## Names -/

/-- What stands behind the last dot of a text, or all of it if it has none. -/
def lastPiece (s : Text) : Text := (s.reverse.takeWhile (· ≠ '.')).reverse

lemma length_lastPiece_le (s : Text) : (lastPiece s).length ≤ s.length := by
  rw [lastPiece, List.length_reverse, ← s.length_reverse]
  exact (List.takeWhile_prefix _).length_le

lemma lastPiece_append (s e : Text) : lastPiece (s ++ '.' :: e) = lastPiece e := by
  rw [lastPiece, lastPiece, List.reverse_append, List.reverse_cons, List.append_assoc,
    List.takeWhile_append]
  split
  next hall =>
    have hdone : e.reverse.takeWhile (fun c => decide (c ≠ '.')) = e.reverse :=
      (List.takeWhile_prefix _).eq_of_length hall
    rw [hdone]
    simp
  next => rfl

lemma lastPiece_of_notMem {e : Text} (h : '.' ∉ e) : lastPiece e = e := by
  rw [lastPiece, List.takeWhile_eq_self_iff.2, List.reverse_reverse]
  intro c hc
  have hne : c ≠ '.' := by
    rintro rfl
    exact h (List.mem_reverse.1 hc)
  simpa using hne

/-- A text with a dot in it is what stands in front of its last dot, the dot, and the last piece. -/
lemma exists_of_lastPiece_ne {s : Text} (h : (lastPiece s).length ≠ s.length) :
    ∃ stem, s = stem ++ '.' :: lastPiece s ∧ '.' ∉ lastPiece s := by
  have hparts := List.takeWhile_append_dropWhile (p := fun c => decide (c ≠ '.')) (l := s.reverse)
  cases hrest : s.reverse.dropWhile (fun c => decide (c ≠ '.')) with
  | nil =>
    -- no dot at all
    rw [hrest, List.append_nil] at hparts
    refine absurd ?_ h
    rw [lastPiece, List.length_reverse, hparts, List.length_reverse]
  | cons c rest =>
    have hdot : c = '.' := by
      have hhead := List.head?_dropWhile_not (fun c => decide (c ≠ '.')) s.reverse
      rw [hrest] at hhead
      simpa using hhead
    refine ⟨rest.reverse, ?_, fun hmem => ?_⟩
    · rw [hrest, hdot] at hparts
      conv_lhs => rw [← s.reverse_reverse, ← hparts]
      simp [lastPiece]
    · have hkept := List.mem_takeWhile_imp (List.mem_reverse.1 hmem)
      simp at hkept

/-- A name that a file of a project may have: it is not hidden. -/
def IsFileName (s : Text) : Prop := s ≠ [] ∧ s.head? ≠ some '.' ∧ '/' ∉ s

lemma IsFileName.isName {s : Text} (h : IsFileName s) : IsName s := by
  refine ⟨h.1, ?_, ?_, h.2.2⟩ <;>
  · rintro rfl
    exact h.2.1 rfl

lemma IsFileName.append_dot {stem ext : Text} (h : IsFileName stem) (hext : '/' ∉ ext) :
    IsFileName (stem ++ '.' :: ext) := by
  obtain ⟨hne, hhead, hslash⟩ := h
  refine ⟨by simp, ?_, ?_⟩
  · rwa [List.head?_append_of_ne_nil _ hne]
  · simp [hslash, hext]

lemma IsFileName.isAbsolute_append {s : Text} (h : IsFileName s) (rest : Text) :
    isAbsolute (s ++ rest) = false := by
  rw [Path.isAbsolute, List.head?_append_of_ne_nil _ h.1]
  exact isAbsolute_of_notMem h.2.2

lemma IsFileName.isAbsolute {s : Text} (h : IsFileName s) : isAbsolute s = false :=
  isAbsolute_of_notMem h.2.2

/-- A name splits at its last dot. -/
lemma splitExtension_append {stem : Text} (h : IsFileName stem) (ext : Text) :
    splitExtension (stem ++ '.' :: ext) =
      (stem ++ ('.' :: ext).take (ext.length - (lastPiece ext).length),
        some (lastPiece ext)) := by
  have hlength := length_lastPiece_le ext
  have hpositive : 0 < stem.length := List.length_pos_iff.2 h.1
  have hdots : stem ++ '.' :: ext ≠ ['.', '.'] := by
    intro heq
    refine h.2.1 ?_
    have hhead : (stem ++ '.' :: ext).head? = stem.head? := List.head?_append_of_ne_nil stem h.1
    rw [← hhead, heq]
    rfl
  have hsuffix : ((stem ++ '.' :: ext).reverse.takeWhile (· ≠ '.')).reverse = lastPiece ext :=
    lastPiece_append stem ext
  have htotal : (stem ++ '.' :: ext).length = stem.length + ext.length + 1 := by
    simp [Nat.add_assoc]
  have htake : (stem ++ '.' :: ext).take (stem.length + ext.length + 1 -
      (lastPiece ext).length - 1) =
      stem ++ ('.' :: ext).take (ext.length - (lastPiece ext).length) := by
    have hcount : stem.length + ext.length + 1 - (lastPiece ext).length - 1 =
        stem.length + (ext.length - (lastPiece ext).length) := by omega
    rw [hcount, List.take_length_add_append]
  rw [splitExtension, if_neg hdots]
  dsimp only
  rw [hsuffix, htotal, htake, if_neg]
  rintro (hall | hnone)
  · omega
  · exact h.1 (List.append_eq_nil_iff.1 hnone).1

lemma splitExtension_of_notMem {stem ext : Text} (h : IsFileName stem) (hdot : '.' ∉ ext) :
    splitExtension (stem ++ '.' :: ext) = (stem, some ext) := by
  rw [splitExtension_append h, lastPiece_of_notMem hdot, Nat.sub_self, List.take_zero,
    List.append_nil]

/-- What a name with an extension is made of. -/
lemma exists_of_splitExtension {name stem ext : Text} (hname : IsFileName name)
    (h : splitExtension name = (stem, some ext)) :
    name = stem ++ '.' :: ext ∧ IsFileName stem ∧ '.' ∉ ext ∧ '/' ∉ ext := by
  have hparts : (lastPiece name).length ≠ name.length ∧ lastPiece name = ext := by
    rw [splitExtension, if_neg hname.isName.2.2.1] at h
    dsimp only at h
    split at h
    next => cases h
    next hkept =>
      rw [not_or] at hkept
      exact ⟨hkept.1, by simpa [lastPiece] using (Prod.ext_iff.1 h).2⟩
  obtain ⟨hlength, rfl⟩ := hparts
  obtain ⟨stem', heq, hdot⟩ := exists_of_lastPiece_ne hlength
  obtain ⟨hne, hhead, hslash⟩ := hname
  have hstem' : stem' ≠ [] := by
    rintro rfl
    rw [heq] at hhead
    exact hhead rfl
  have hfile : IsFileName stem' := by
    refine ⟨hstem', ?_, fun hmem => hslash ?_⟩
    · rwa [heq, List.head?_append_of_ne_nil _ hstem'] at hhead
    · rw [heq]
      exact List.mem_append_left _ hmem
  have hsplit := splitExtension_of_notMem hfile hdot
  rw [← heq, h] at hsplit
  obtain rfl : stem = stem' := congrArg Prod.fst hsplit
  refine ⟨heq, hfile, hdot, fun hmem => hslash ?_⟩
  rw [heq]
  exact List.mem_append_right _ (List.mem_cons_of_mem _ hmem)

/-! ## Paths of files -/

section Join

variable (dir : Path) {name : Text} (hname : IsFileName name)

include hname

lemma fileName?_join : (dir.join name).fileName? = some name := by
  have hsteps : Path.steps name = [.name name] := by
    obtain ⟨hne, hdot, hdots, hslash⟩ := hname.isName
    rw [steps, splitOn_of_notMem hslash]
    simp [pieceComponent?, hne, hdot, hdots]
  have hlast : (dir.join name).components.getLast? = some (.name name) := by
    rw [components_eq, steps_join dir hname.isAbsolute, hsteps, ← List.append_assoc,
      List.getLast?_concat]
  rw [fileName?, hlast]

lemma extension?_join : (dir.join name).extension? = (splitExtension name).2 := by
  rw [extension?, fileName?_join dir hname, Option.bind_some]

lemma splitOn_join : ∃ ps, splitOn '/' (dir.join name) = ps ++ [name] := by
  rw [join_eq dir hname.isAbsolute]
  rcases dir.opening_eq with ⟨hopening, -⟩ | ⟨b, hopening, -⟩
  · exact ⟨[], by rw [hopening]; exact splitOn_of_notMem hname.2.2⟩
  · refine ⟨splitOn '/' b, ?_⟩
    rw [hopening, List.append_assoc, List.singleton_append, splitOn_append,
      splitOn_of_notMem hname.2.2]

/-- A path that ends in a name has nothing behind it to leave out. -/
lemma trimSteps_join : (dir.join name).trimSteps = dir.join name := by
  obtain ⟨ps, hps⟩ := splitOn_join dir hname
  have hwhole := intercalate_splitOn '/' (dir.join name)
  rw [hps] at hwhole
  rw [trimSteps, hps]
  cases ps with
  | nil => exact hwhole
  | cons first ps =>
    rw [List.cons_append] at hwhole ⊢
    dsimp only
    have hall : (ps ++ [name]).reverse.dropWhile (fun piece => piece = [] ∨ piece = ['.']) =
        (ps ++ [name]).reverse := by
      rw [List.reverse_concat, List.dropWhile_cons, if_neg]
      simpa using ⟨hname.1, hname.isName.2.1⟩
    rw [hall, List.reverse_reverse]
    exact hwhole

end Join

/-- **The path with another extension.**  What stands behind the last dot of a file name is
exchanged for the extension. -/
theorem withExtension_join (dir : Path) {stem old ext : Text} (hstem : IsFileName stem)
    (hdot : '.' ∉ old) (hold : '/' ∉ old) (hext : ext ≠ []) :
    (dir.join (stem ++ '.' :: old)).withExtension ext = dir.join (stem ++ '.' :: ext) := by
  have hjoin (e : Text) : dir.join (stem ++ '.' :: e) = dir.opening ++ stem ++ '.' :: e := by
    rw [join_eq dir (hstem.isAbsolute_append _), List.append_assoc]
  have hold' : (dir.join (stem ++ '.' :: old)).extension? = some old := by
    rw [extension?_join dir (hstem.append_dot hold), splitExtension_of_notMem hstem hdot]
  -- with the letters of the old extension gone, the name ends in a dot
  have hbare : (dir.join (stem ++ '.' :: old)).take
      ((dir.join (stem ++ '.' :: old)).length - old.length) = dir.join (stem ++ ['.']) := by
    rw [hjoin, hjoin []]
    have hcount : (dir.opening ++ stem ++ '.' :: old).length - old.length =
        (dir.opening ++ stem).length + 1 := by
      simp only [List.length_append, List.length_cons]
      omega
    rw [hcount, List.take_length_add_append, List.take_succ_cons, List.take_zero]
  have hdotted : IsFileName (stem ++ ['.']) := hstem.append_dot (by simp)
  have hsplit : splitExtension (stem ++ ['.']) = (stem, some []) := by
    simpa [lastPiece] using splitExtension_append hstem []
  rw [withExtension, hold']
  dsimp only
  rw [hbare, setExtension, fileName?_join dir hdotted]
  dsimp only
  rw [trimSteps_join dir hdotted, hsplit, if_neg hext, hjoin, hjoin ext]
  have hcount : (dir.opening ++ stem ++ ['.']).length -
      ((stem ++ ['.']).length - stem.length) = (dir.opening ++ stem).length := by
    simp only [List.length_append, List.length_singleton]
    omega
  rw [hcount, List.take_left]

/-- The extension of a path with another one is what stands behind the last dot of that. -/
theorem extension?_withExtension (dir : Path) {stem old ext : Text} (hstem : IsFileName stem)
    (hdot : '.' ∉ old) (hold : '/' ∉ old) (hext : ext ≠ []) (hslash : '/' ∉ ext) :
    ((dir.join (stem ++ '.' :: old)).withExtension ext).extension? = some (lastPiece ext) := by
  rw [withExtension_join dir hstem hdot hold hext, extension?_join dir (hstem.append_dot hslash),
    splitExtension_append hstem]

end Path

end Docmark
