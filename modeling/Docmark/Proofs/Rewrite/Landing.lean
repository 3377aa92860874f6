import Mathlib
import Docmark.Proofs.Path.Place
import Docmark.Rewrite.LinkRebase

/-!
# Where links lead

A relative link target is a path with a query and a fragment behind it.  From a directory it leads
to a place, and rebasing is meant to write a target anew so that it leads to the same place from
another directory.

## Main results

* `LinkRebase.alike_of_rebase?` — a target that is rebased leads where it led before.
* `LinkRebase.rebase?_trans` — rebasing twice is rebasing once, as long as the target in between is
  still taken for a relative one.
* `alike_carriedUp` — the same for a target that is carried through any number of directories.
-/

namespace Docmark

/-! ## Targets -/

/-- Whether a character belongs to a path, and is not the mark of a query or a fragment. -/
def isPathChar (c : Char) : Bool := c ≠ '?' && c ≠ '#'

/-- The path of a link target: what stands in front of its query and fragment. -/
def targetPath (t : Text) : Path := t.takeWhile isPathChar

/-- The query and the fragment of a link target, with their marks. -/
def targetSuffix (t : Text) : Text := t.drop (targetPath t).length

/-- Where a link leads: to a place, and to a part of what is there. -/
structure Landing where
  place : Path.Place
  suffix : Text

/-- Where a target leads from a directory. -/
def landing (dir : Path) (t : Text) : Landing :=
  ⟨(dir.join (targetPath t)).resolve, targetSuffix t⟩

/-- No mark in a text starts a query or a fragment. -/
def IsUnmarked (s : Text) : Prop := ∀ c ∈ s, isPathChar c = true

lemma IsUnmarked.mono {s s' : Text} (h : IsUnmarked s') (hsub : s ⊆ s') : IsUnmarked s :=
  fun c hc => h c (hsub hc)

lemma isUnmarked_targetPath (t : Text) : IsUnmarked (targetPath t) :=
  fun _ hc => List.mem_takeWhile_imp hc

lemma targetSuffix_eq (t : Text) : targetSuffix t = t.dropWhile isPathChar := by
  rw [targetSuffix, targetPath]
  conv_lhs =>
    enter [2]
    rw [← List.takeWhile_append_dropWhile (p := isPathChar) (l := t)]
  rw [List.drop_left]

lemma targetPath_targetSuffix (t : Text) : targetPath (targetSuffix t) = [] := by
  rw [targetSuffix_eq, targetPath]
  induction t with
  | nil => rfl
  | cons c t ih =>
    by_cases hc : isPathChar c = true
    · rwa [List.dropWhile_cons_of_pos hc]
    · rw [List.dropWhile_cons_of_neg hc, List.takeWhile_cons_of_neg hc]

section Suffix

variable {s : Path} (hs : IsUnmarked s) (t : Text)

include hs

/-- A path with the suffix of a target behind it. -/
lemma targetPath_append : targetPath (s ++ targetSuffix t) = s := by
  have hnone := targetPath_targetSuffix t
  rw [targetPath] at hnone ⊢
  rw [List.takeWhile_append_of_pos hs, hnone, List.append_nil]

lemma targetSuffix_append : targetSuffix (s ++ targetSuffix t) = targetSuffix t := by
  rw [targetSuffix.eq_1 (s ++ targetSuffix t), targetPath_append hs, List.drop_left]

end Suffix

/-- A mark in front of the suffix of a target would start the suffix. -/
lemma isUnmarked_of_targetSuffix_append {s : Path} {t : Text}
    (h : targetSuffix (s ++ targetSuffix t) = targetSuffix t) : IsUnmarked s := by
  by_contra hmarked
  have hrest : s.dropWhile isPathChar ≠ [] := by
    rw [ne_eq, List.dropWhile_eq_nil_iff]
    exact hmarked
  have hpos := List.length_pos_of_ne_nil hrest
  rw [targetSuffix_eq (s ++ _), List.dropWhile_append, if_neg (by simpa using hrest)] at h
  have hlength := congrArg List.length h
  rw [List.length_append] at hlength
  omega

/-- A relative target does not start at the root. -/
lemma isAbsolute_targetPath {t : Text} (h : isRelativeTarget t = true) :
    (targetPath t).isAbsolute = false := by
  cases t with
  | nil => rfl
  | cons c t =>
    have hc : c ≠ '/' := by
      rintro rfl
      cases h
    rw [targetPath, List.takeWhile_cons]
    split
    · simpa [Path.isAbsolute] using hc
    · rfl

/-- The path of a target climbs at most once above where it starts from, as normal forms have it. -/
def IsSteadyFrom (dir : Path) (t : Text) : Prop := (dir.join (targetPath t)).IsSteady

/-- Two targets, each from a directory, have the same normal form and the same suffix. -/
structure Alike (dir : Path) (t : Text) (dir' : Path) (t' : Text) : Prop where
  place : (dir.join (targetPath t)).place = (dir'.join (targetPath t')).place
  suffix : targetSuffix t = targetSuffix t'

section Alike

variable {dir dir' dir'' : Path} {t t' t'' : Text}

lemma Alike.refl (dir : Path) (t : Text) : Alike dir t dir t := ⟨rfl, rfl⟩

lemma Alike.trans (h : Alike dir t dir' t') (h' : Alike dir' t' dir'' t'') :
    Alike dir t dir'' t'' :=
  ⟨h.place.trans h'.place, h.suffix.trans h'.suffix⟩

/-- A target from one place is the same target, however the place is written. -/
lemma Alike.of_place (h : dir.place = dir'.place) (t : Text) : Alike dir t dir' t :=
  ⟨Path.place_join_congr h _, rfl⟩

/-- An absolute target is the same from everywhere. -/
lemma Alike.of_isAbsolute (h : Path.isAbsolute t = true) (dir dir' : Path) :
    Alike dir t dir' t := by
  have habs : (targetPath t).isAbsolute = true := by
    cases t with
    | nil => cases h
    | cons c t =>
      obtain rfl : c = '/' := by simpa [Path.isAbsolute] using h
      rfl
  have hjoin (dir : Path) : dir.join (targetPath t) = targetPath t := by
    rw [Path.join, Path.push, if_pos habs]
  exact ⟨by rw [hjoin, hjoin], rfl⟩

/-- Targets that are alike lead to one place, with one query and fragment. -/
lemma Alike.landing_eq (h : Alike dir t dir' t') (hsteady : IsSteadyFrom dir t)
    (hsteady' : IsSteadyFrom dir' t') : landing dir t = landing dir' t' := by
  rw [landing, landing, Path.resolve_eq_place hsteady, Path.resolve_eq_place hsteady', h.place,
    h.suffix]

end Alike

/-! ## Rebasing -/

open Docmark.Path

namespace LinkRebase

lemma rebase?_eq (r : LinkRebase) (t : Text) :
    r.rebase? t = if isRelativeTarget t then
      ((r.source.join (targetPath t)).normalize.relativeTo? r.target).map
        fun p => p.slashed ++ targetSuffix t
    else none := rfl

/-- The names on the way to a target are unmarked if the directory is. -/
lemma isUnmarked_of_mem_trail {dir : Path} (hdir : IsUnmarked dir) {t s : Text}
    (ht : isRelativeTarget t = true) (h : s ∈ (dir.join (targetPath t)).place.trail) :
    IsUnmarked s := by
  have hdots : IsUnmarked ['.', '.'] := by simp [IsUnmarked, isPathChar]
  rw [place_join dir (isAbsolute_targetPath ht)] at h
  rcases Place.mem_trail_walk (steps_isStep _) h with hown | hname | rfl
  · rcases mem_trail_place hown with hsub | rfl
    · exact hdir.mono hsub
    · exact hdots
  · exact (isUnmarked_targetPath t).mono (subset_of_name_mem_steps hname)
  · exact hdots

/-- What rebasing makes of a target: another path to the same place, with the same suffix. -/
lemma exists_of_rebase? {source target : Path} (hsource : IsUnmarked source) {t t' : Text}
    (h : (between source target).rebase? t = some t') :
    ∃ path, IsUnmarked path ∧ t' = path ++ targetSuffix t ∧
      (target.join path).place = (source.join (targetPath t)).place := by
  have hjoin : ((between source target).source.join (targetPath t)).place =
      (source.join (targetPath t)).place := place_join_congr (place_normalize source) _
  rw [rebase?_eq] at h
  split at h
  next hrelative =>
    obtain ⟨q, hq, rfl⟩ := Option.map_eq_some_iff.1 h
    obtain ⟨hplace, hchars⟩ := relativeTo?_slashed hq
    rw [hjoin] at hplace hchars
    refine ⟨q.slashed, fun c hc => ?_, rfl, hplace⟩
    rcases hchars c hc with rfl | rfl | ⟨s, hs, hc⟩
    · rfl
    · rfl
    · exact isUnmarked_of_mem_trail hsource hrelative hs c hc
  next => cases h

/-- **Rebased targets stay alike.**  A target that is rebased has from the new directory the normal
form that it had from the old one, with the same query and fragment. -/
theorem alike_of_rebase? {source target : Path} (hsource : IsUnmarked source) {t t' : Text}
    (h : (between source target).rebase? t = some t') : Alike target t' source t := by
  obtain ⟨path, hpath, rfl, hplace⟩ := exists_of_rebase? hsource h
  exact ⟨by rw [targetPath_append hpath, hplace], targetSuffix_append hpath t⟩

/-- **Rebasing goes on.**  A target that is rebased, and then is still a relative one, is rebased
further as if it came from the first directory at once. -/
theorem rebase?_trans {source middle : Path} (hsource : IsUnmarked source) {t t' : Text}
    (h : (between source middle).rebase? t = some t') (ht' : isRelativeTarget t' = true)
    (target : Path) :
    (between middle target).rebase? t' = (between source target).rebase? t := by
  have ht : isRelativeTarget t = true := by
    by_contra hnot
    rw [rebase?_eq, if_neg hnot] at h
    cases h
  obtain ⟨path, hpath, rfl, hplace⟩ := exists_of_rebase? hsource h
  have hjoin (dir : Path) (q : Path) :
      ((between dir target).source.join q).normalize = (dir.join q).normalize :=
    normalize_eq_iff.2 (place_join_congr (place_normalize dir) q)
  rw [rebase?_eq, rebase?_eq, if_pos ht, if_pos ht', targetPath_append hpath,
    targetSuffix_append hpath, hjoin, hjoin, normalize_eq_iff.2 hplace]
  rfl

end LinkRebase

/-! ## Through several directories -/

/-- A target as it stands in a file, when it is from a file that is included there, given the
directories of the two as far as they are known. -/
def carried (target source : Option Path) (t : Text) : Text :=
  match target, source with
  | some target, some source =>
    let r := LinkRebase.between source target
    if r.isIdentity then t else r.apply t
  | _, _ => t

/-- A target as it stands in the first of some files, each of which includes the next, when it is
from the last of them. -/
def carriedUp : List (Option Path) → Text → Text
  | target :: source :: rest, t => carried target source (carriedUp (source :: rest) t)
  | _, t => t

/-- A target is not lost between the directories of two files: they are the same, or the target is
relative and has a form that is, or it is absolute. -/
inductive Survives : Option Path → Option Path → Text → Prop
  | stays {target source : Path} {t : Text}
      (h : (LinkRebase.between source target).isIdentity = true) :
      Survives (some target) (some source) t
  | rebased {target source : Path} {t : Text} (hsource : IsUnmarked source)
      (h : ((LinkRebase.between source target).rebase? t).isSome = true) :
      Survives (some target) (some source) t
  | absolute {target source : Path} {t : Text} (h : Path.isAbsolute t = true) :
      Survives (some target) (some source) t

/-- A target is not lost on its way up through the directories of some files. -/
def SurvivesUp : List (Option Path) → Text → Prop
  | target :: source :: rest, t =>
    SurvivesUp (source :: rest) t ∧ Survives target source (carriedUp (source :: rest) t)
  | _, _ => True

lemma alike_carried {target source : Path} {t : Text}
    (h : Survives (some target) (some source) t) :
    Alike target (carried (some target) (some source) t) source t := by
  have hsame (hid : (LinkRebase.between source target).isIdentity = true) :
      target.place = source.place := by
    have hcomponents : source.normalize.components = target.normalize.components := by
      simpa [LinkRebase.isIdentity, LinkRebase.between, same] using hid
    rw [← place_normalize target, ← place_normalize source, place, place, hcomponents]
  simp only [carried]
  split
  next hid => exact .of_place (hsame hid) t
  next hid =>
    rw [LinkRebase.apply]
    cases h with
    | stays h => exact absurd h hid
    | rebased hsource h =>
      obtain ⟨t', ht'⟩ := Option.isSome_iff_exists.1 h
      rw [ht', Option.getD_some]
      exact LinkRebase.alike_of_rebase? hsource ht'
    | absolute h =>
      have hnone : (LinkRebase.between source target).rebase? t = none := by
        cases t with
        | nil => cases h
        | cons c t =>
          obtain rfl : c = '/' := by simpa [isAbsolute] using h
          rfl
      rw [hnone, Option.getD_none]
      exact .of_isAbsolute h _ _

/-- **Targets are carried up.**  A target that is not lost on its way up has from the first
directory the normal form that it had from the last one. -/
theorem alike_carriedUp {dirs : List (Option Path)} {first last : Path}
    (hfirst : dirs.head? = some (some first)) (hlast : dirs.getLast? = some (some last)) {t : Text}
    (h : SurvivesUp dirs t) : Alike first (carriedUp dirs t) last t := by
  induction dirs generalizing first with
  | nil => cases hfirst
  | cons dir dirs ih =>
    obtain rfl : dir = some first := by simpa using hfirst
    cases dirs with
    | nil =>
      obtain rfl : first = last := by simpa using hlast
      exact .refl _ _
    | cons source rest =>
      obtain ⟨hrest, hstep⟩ := h
      obtain ⟨source, rfl⟩ : ∃ s, source = some s := by
        cases hstep <;> exact ⟨_, rfl⟩
      rw [List.getLast?_cons_cons] at hlast
      exact (alike_carried hstep).trans (ih rfl hlast hrest)

end Docmark
