import Mathlib
import Docmark.Proofs.Reading.Unnamed

/-!
# Heading ids of one document after the other

A rewriter may be used for several documents.  The one that gives headings their ids forgets what it
gave when it turns to the next document, so each of them has the ids that it would have alone: every
heading has one, and no two have the same, whatever the headings are made of.

## Main results

* `headingIdRewriter_passes` — no document sees those before it.
* `documents_have_heading_ids` — the same for documents that were read, with what each then has.
-/

namespace Docmark

section Passes

variable {σ : Type} {w : Rewriter σ}

/-- A rewriter whose walks do not depend on the state in which it was left makes over several
documents the passes that it makes over each of them anew. -/
lemma Rewriter.passes_eq_map
    (hw : ∀ file root s j, w.visit file root (s, j) = w.visit file root (w.initial, j)) (s : σ)
    (docs : List (Option Path × Block × Journal)) :
    w.passes s docs = docs.map fun d => w.pass d.1 d.2.1 d.2.2 := by
  induction docs generalizing s with
  | nil => rfl
  | cons d docs ih =>
    obtain ⟨file, root, journal⟩ := d
    rw [passes, List.map_cons, hw, pass]
    rcases w.visit file root (w.initial, journal) with ⟨- | root', s', journal'⟩ <;> simp only [ih]

end Passes

/-- **No document sees those before it.** -/
theorem headingIdRewriter_passes (s : UsedIds) (docs : List (Option Path × Block × Journal)) :
    headingIdRewriter.passes s docs = docs.map fun d => headingIdRewriter.pass d.1 d.2.1 d.2.2 :=
  Rewriter.passes_eq_map (fun _ _ _ _ => rfl) s docs

/-- **Every document has heading ids of its own.**  One rewriter goes over documents one after the
other, whatever it was used for before.  Each document becomes what a new rewriter makes of it:
every heading has an id, and going over it once more changes nothing.  No two ids are the same if
the document was read, by rules that leave the ids to the rewriter.  Whenever a number is searched
to go with an id that is in use, there is one, and the least above the last one is taken. -/
theorem documents_have_heading_ids (s : UsedIds) (docs : List (Option Path × Block × Journal)) :
    headingIdRewriter.passes s docs =
        docs.map (fun d => headingIdRewriter.pass d.1 d.2.1 d.2.2) ∧
    (∀ d ∈ docs, ∃ root, headingIdRewriter.pass d.1 d.2.1 d.2.2 = (.ok root, d.2.2) ∧
      root.headingIds = (nameHeadings [] d.2.1.headings).1.map some ∧
      none ∉ root.headingIds ∧
      (∀ file journal, headingIdRewriter.pass file root journal = (.ok root, journal)) ∧
      ∀ rules defs scope text, RuleSet.LeavesIds rules →
        (readWith rules defs scope text).1 = .ok d.2.1 → root.headingIds.Nodup) ∧
    ∀ used base last, IsLeast {n | last < n ∧ numbered base n ∉ UsedIds.taken used}
      (freeNumber used base last) := by
  refine ⟨headingIdRewriter_passes s docs, fun d _ => ?_, freeNumber_isLeast⟩
  obtain ⟨root, hpass, hids⟩ := headingIdRewriter_pass d.1 d.2.1 d.2.2
  have hnamed : none ∉ root.headingIds := by simp [hids]
  refine ⟨root, hpass, hids, hnamed,
    fun file journal => headingIdRewriter_pass_keeps hnamed journal, ?_⟩
  intro rules defs scope text hrules hread
  rw [hids]
  exact (idsDiffer_map_some (nameHeadings_nodup (readWith_lacksIds hrules hread).headings)).1

/-- Twice the same text, and one that looks as if it had a number already: the third heading gets a
number behind its own.  The same document comes twice, and is read the same the second time. -/
theorem documents_have_heading_ids_numbered :
    let text := "# a\n# a\n# a-1\n".toList
    let named := [some "a".toList, some "a-1".toList, some "a-1-1".toList]
    dfmRules.LeavesIds ∧ ∃ source root,
      (readWith dfmRules [] Scope.document text).1 = .ok source ∧
      headingIdRewriter.passes [("a".toList, 7)] [(none, source, {}), (none, source, {})] =
        [(.ok root, {}), (.ok root, {})] ∧
      headingIdRewriter.pass none root {} = (.ok root, {}) ∧
      root.headingIds = named ∧ root.headingIds.Nodup := by
  intro text named
  have hrules : dfmRules.LeavesIds := (Flavor.rules_isStandard .dfm).leavesIds
  have hread : ∃ source, (readWith dfmRules [] Scope.document text).1 = .ok source ∧
      source.headings = [(none, "a".toList), (none, "a".toList), (none, "a-1".toList)] := by
    decide +kernel
  obtain ⟨source, hsource, hheadings⟩ := hread
  obtain ⟨hpasses, hdocs, -⟩ := documents_have_heading_ids [("a".toList, 7)]
    [(none, source, {}), (none, source, {})]
  obtain ⟨root, hpass, hids, -, hkeeps, hnodup⟩ := hdocs (none, source, {}) List.mem_cons_self
  refine ⟨hrules, source, root, hsource, ?_, hkeeps none {}, ?_,
    hnodup dfmRules [] Scope.document text hrules hsource⟩
  · rw [hpasses, List.map_cons, List.map_cons, List.map_nil, hpass]
  · rw [hids, hheadings]
    decide +kernel

end Docmark
