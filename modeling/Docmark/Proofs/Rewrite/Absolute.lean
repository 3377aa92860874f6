import Mathlib
import Docmark.Proofs.Path.Climb
import Docmark.Proofs.Rewrite.Landing

/-!
# Rebasing between absolute directories

From one absolute directory to another, every relative target has a new form: a path with the query
and fragment of the target behind it.  The path leads from the new directory to the place where the
old one leads from the old directory, also where the target climbs above the root.  The new form
does so as a link as long as no name in the path looks like the start of a query or a fragment.

## Main results

* `LinkRebase.rebase?_resolves` — which targets are rebased, and where they lead then;
  `LinkRebase.rebase?_of_marked_directory`, a directory whose name cuts its targets short.
-/

namespace Docmark

open Docmark.Path

namespace LinkRebase

section Directories

variable {source target : Path} (hsource : source.isAbsolute = true)
  (htarget : target.isAbsolute = true)

include hsource htarget

/-- A path that is written for a new directory leads where the old one led, if the two have the same
normal form. -/
lemma resolve_join_of_place {path q : Path} (hpath : path.isAbsolute = false)
    (hq : q.isAbsolute = false) (h : (target.join path).place = (source.join q).place) :
    (target.join path).resolve = (source.join q).resolve := by
  have htargetJoin : (target.join path).isAbsolute = true := by
    rw [isAbsolute_join target hpath, htarget]
  have hsourceJoin : (source.join q).isAbsolute = true := by
    rw [isAbsolute_join source hq, hsource]
  rw [resolve_eq_settle htargetJoin, resolve_eq_settle hsourceJoin, h]

/-- The new form of a relative target: a relative path with the same normal form, and the query and
fragment of the target. -/
lemma exists_rebase? (hparent : .parent ∉ target.components) {t : Text}
    (ht : isRelativeTarget t = true) :
    ∃ path : Path, (between source target).rebase? t = some (path ++ targetSuffix t) ∧
      path.isAbsolute = false ∧
        (target.join path).place = (source.join (targetPath t)).place := by
  have hjoin : ((between source target).source.join (targetPath t)).place =
      (source.join (targetPath t)).place := place_join_congr (place_normalize source) _
  have hjoinAbs : ((between source target).source.join (targetPath t)).isAbsolute = true := by
    rw [← place_absolute, hjoin, place_absolute, isAbsolute_join source (isAbsolute_targetPath ht),
      hsource]
  obtain ⟨q, hq⟩ := exists_relativeTo? hjoinAbs htarget hparent
  have habs : ((between source target).source.join (targetPath t)).place.absolute =
      target.place.absolute := by
    rw [place_absolute, place_absolute, hjoinAbs, htarget]
  obtain ⟨cs, hcs, rfl, hwalk, -⟩ := relativeTo?_place habs hq
  refine ⟨written cs, ?_, isAbsolute_written hcs, ?_⟩
  · have hq' : ((between source target).source.join (targetPath t)).normalize.relativeTo?
        (between source target).target = some (written cs) := hq
    rw [rebase?_eq, if_pos ht, hq', Option.map_some, slashed_written hcs]
  · rw [place_join target (isAbsolute_written hcs), steps_written hcs, hwalk, hjoin]

end Directories

/-- **Where rebased targets lead.**  Between two absolute directories, of which the new one has no
steps to the parent, exactly the relative targets are rebased.  The new form of a target is a
relative path with the query and the fragment of the target behind it; from the new directory the
path leads, step by step, to where the path of the target leads from the old one.

Nothing in the path is escaped, so a name that it has from the old directory may hold the mark of a
query or a fragment, which then cuts the path short.  The new form as a link leads where the target
led just if there is no such mark in the path, as when there is none in the name of the old
directory. -/
theorem rebase?_resolves (source target : Path) (hsource : source.isAbsolute = true)
    (htarget : target.isAbsolute = true) (hparent : .parent ∉ target.components) (t : Text) :
    (isRelativeTarget t = true →
      ∃ path : Path, (between source target).rebase? t = some (path ++ targetSuffix t) ∧
        path.isAbsolute = false ∧
        (target.join path).resolve = (source.join (targetPath t)).resolve ∧
        (landing target (path ++ targetSuffix t) = landing source t ↔ IsUnmarked path) ∧
        (IsUnmarked source → IsUnmarked path)) ∧
    (isRelativeTarget t = false → (between source target).rebase? t = none) := by
  constructor
  · intro ht
    obtain ⟨path, hrebase, hpath, hplace⟩ := exists_rebase? hsource htarget hparent ht
    have hresolve :=
      resolve_join_of_place hsource htarget hpath (isAbsolute_targetPath ht) hplace
    refine ⟨path, hrebase, hpath, hresolve, ⟨fun h => ?_, fun hmarks => ?_⟩, fun hmarks => ?_⟩
    · exact isUnmarked_of_targetSuffix_append (congrArg Landing.suffix h)
    · rw [landing, landing, targetPath_append hmarks, targetSuffix_append hmarks, hresolve]
    · obtain ⟨path', hpath', heq, -⟩ := exists_of_rebase? hmarks hrebase
      rwa [List.append_cancel_right heq]
  · intro ht
    rw [rebase?_eq, if_neg (by simp [ht])]

/-- A target that climbs above the root, with a query behind it. -/
theorem rebase?_resolves_above_root :
    let source : Path := "/a//b/".toList
    let target : Path := "/c/./d".toList
    let t := ".././../../../c/x/./y//?q#f".toList
    source.isAbsolute = true ∧ target.isAbsolute = true ∧ .parent ∉ target.components ∧
      isRelativeTarget t = true ∧
      ∃ path : Path, (between source target).rebase? t = some (path ++ "?q#f".toList) ∧
        (target.join path).resolve = (source.join (targetPath t)).resolve ∧
        landing target (path ++ "?q#f".toList) = landing source t := by
  intro source target t
  have hsource : source.isAbsolute = true := by decide
  have htarget : target.isAbsolute = true := by decide
  have hparent : Component.parent ∉ target.components := by decide
  have ht : isRelativeTarget t = true := by decide
  have hmarks : IsUnmarked source := by simp [IsUnmarked, isPathChar, source]
  obtain ⟨path, hrebase, -, hresolve, hlanding, hpath⟩ :=
    (rebase?_resolves source target hsource htarget hparent t).1 ht
  exact ⟨hsource, htarget, hparent, ht, path, hrebase, hresolve, hlanding.2 (hpath hmarks)⟩

/-- A directory with a mark in its name.  The new form of a target in it starts a fragment at the
mark, and leads elsewhere. -/
theorem rebase?_of_marked_directory :
    let source : Path := "/a#b".toList
    let target : Path := "/c".toList
    let t := "x.md".toList
    source.isAbsolute = true ∧ target.isAbsolute = true ∧ .parent ∉ source.components ∧
      .parent ∉ target.components ∧ isRelativeTarget t = true ∧
      ∃ r, (between source target).rebase? t = some r ∧ targetPath r = "../a".toList ∧
        targetSuffix r = "#b/x.md".toList ∧ targetSuffix t = [] ∧
        landing target r ≠ landing source t := by
  intro source target t
  have hsuffix : targetSuffix "../a#b/x.md".toList ≠ targetSuffix t := by decide
  exact ⟨by decide, by decide, by decide, by decide, by decide, "../a#b/x.md".toList,
    by decide +kernel, by decide, by decide, by decide,
    fun h => hsuffix (congrArg Landing.suffix h)⟩

end LinkRebase

end Docmark
