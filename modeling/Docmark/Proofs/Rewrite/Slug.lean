import Mathlib
import Docmark.Proofs.Extent.Pending
import Docmark.Proofs.Reading.Cells
import Docmark.Proofs.Text.Letters
import Docmark.Rewrite.HeadingId

/-!
# Ids made from text

The id that a text is turned into has letters, numbers, hyphens and underscores only, and it is
turned into itself.  The characters of the text are chosen before they are put in lower case, so a
character whose lower-case form is not a single letter is the exception: the dotted capital I leaves
a combining dot in the id, which is dropped when the id is turned into an id again.

## Main results

* `slugify_settles_iff` — the characters of ids, and the texts whose ids are their own ids.
* `slugify_of_dotted_capital` — an id that is not its own id.
-/

namespace Docmark

/-- A character that ids are made of. -/
def IsSlugChar (c : Char) : Prop := isAlphanumeric c = true ∨ c = '-' ∨ c = '_'

instance (c : Char) : Decidable (IsSlugChar c) := inferInstanceAs (Decidable (_ ∨ _))

/-! ## Single characters -/

/-- A character of an id that stays in it when the id is turned into an id. -/
def IsSettled (c : Char) : Prop := slugChar c = [c] ∧ IsSlugChar c

instance (c : Char) : Decidable (IsSettled c) := inferInstanceAs (Decidable (_ ∧ _))

lemma slugChar_dotted : slugChar 'İ' = ['i', '\u0307'] := by
  decide +kernel

lemma not_isSlugChar_dot : ¬ IsSlugChar '\u0307' := by
  decide +kernel

lemma IsSlugChar.isSpace_eq_false {c : Char} (h : IsSlugChar c) : isSpace c = false := by
  rcases h with halnum | rfl | rfl
  · exact isSpace_of_isAlphanumeric halnum
  · decide
  · decide

/-- What a character other than the dotted capital I adds to an id is settled. -/
lemma isSettled_of_mem_slugChar {c d : Char} (hc : c ≠ 'İ') (hd : d ∈ slugChar c) :
    IsSettled d := by
  simp only [slugChar] at hd
  split at hd
  next hkept =>
    rcases hkept with halnum | rfl | rfl
    · obtain ⟨e, hlower, hfixed, hstays⟩ := exists_lowerChar hc
      rw [hlower, List.mem_singleton] at hd
      subst hd
      have hletter := hstays halnum
      exact ⟨by rw [slugChar, if_pos (.inl hletter), hfixed], .inl hletter⟩
    · obtain rfl : d = '_' := by simpa [lowerChar] using hd
      decide +kernel
    · obtain rfl : d = '-' := by simpa [lowerChar] using hd
      decide +kernel
  next =>
    split at hd
    next =>
      rw [List.mem_singleton.1 hd]
      decide +kernel
    next => cases hd

/-! ## Texts -/

/-- Trimming takes nothing but white space off. -/
lemma mem_trim {c : Char} {cs : Text} (hc : isSpace c = false) : c ∈ trim cs ↔ c ∈ cs := by
  have hdrop {ds : Text} : c ∈ ds.dropWhile isSpace ↔ c ∈ ds := by
    refine ⟨fun h => List.dropWhile_suffix isSpace |>.subset h, fun h => ?_⟩
    rw [← List.takeWhile_append_dropWhile (p := isSpace) (l := ds), List.mem_append] at h
    exact h.resolve_left fun htake => by simp [List.mem_takeWhile_imp htake] at hc
  rw [trim, trimEnd, dropEndWhile, List.mem_reverse, hdrop, List.mem_reverse, trimStart, hdrop]

/-- The characters of an id are settled, but for the dot of a dotted capital I. -/
lemma isSettled_of_mem_slugify {cs : Text} {c : Char} (hc : c ∈ slugify cs) :
    IsSettled c ∨ c = '\u0307' ∧ 'İ' ∈ cs := by
  have hletters : ("heading".toList.all fun c => IsSettled c) = true := by decide +kernel
  simp only [slugify] at hc
  split at hc
  next => exact .inl (of_decide_eq_true (List.all_eq_true.1 hletters c hc))
  next =>
    obtain ⟨d, hd, hcd⟩ := List.mem_flatMap.1 hc
    by_cases hdotted : d = 'İ'
    · subst hdotted
      rw [slugChar_dotted] at hcd
      rcases List.mem_pair.1 hcd with rfl | rfl
      · exact .inl (by decide +kernel)
      · exact .inr ⟨rfl, (trim_piece cs).subset hd⟩
    · exact .inl (isSettled_of_mem_slugChar hdotted hcd)

lemma slugify_ne_nil (cs : Text) : slugify cs ≠ [] := by
  simp only [slugify]
  split
  next => decide
  next hne => simpa using hne

/-- A text of settled characters is its own id. -/
lemma slugify_eq_self {cs : Text} (hne : cs ≠ []) (h : ∀ c ∈ cs, IsSettled c) :
    slugify cs = cs := by
  have htrim : trim cs = cs := trim_of_ends
    (fun c hc => (h c (List.mem_of_head? hc)).2.isSpace_eq_false)
    (fun c hc => (h c (List.mem_of_getLast? hc)).2.isSpace_eq_false)
  have hslug : cs.flatMap slugChar = cs := by
    calc cs.flatMap slugChar = cs.flatMap fun c => [c] := List.flatMap_congr fun c hc => (h c hc).1
      _ = cs := List.flatMap_singleton' cs
  have hempty : cs.isEmpty = false := by simpa using hne
  simp only [slugify, htrim, hslug, hempty, Bool.false_eq_true, if_false]

/-- The dot of a dotted capital I is left in the id. -/
lemma dot_mem_slugify {cs : Text} (h : 'İ' ∈ cs) : '\u0307' ∈ slugify cs := by
  have hmem : '\u0307' ∈ (trim cs).flatMap slugChar :=
    List.mem_flatMap.2 ⟨'İ', (mem_trim (by decide)).2 h, by rw [slugChar_dotted]; decide⟩
  have hempty : ((trim cs).flatMap slugChar).isEmpty = false := by
    simpa using List.ne_nil_of_mem hmem
  simp only [slugify, hempty, Bool.false_eq_true, if_false]
  exact hmem

/-- No dotted capital I is left in an id, so an id that is made from an id is settled. -/
lemma isSettled_of_mem_slugify_slugify {cs : Text} {c : Char} (hc : c ∈ slugify (slugify cs)) :
    IsSettled c := by
  rcases isSettled_of_mem_slugify hc with hsettled | ⟨-, hdotted⟩
  · exact hsettled
  · rcases isSettled_of_mem_slugify hdotted with ⟨hself, -⟩ | ⟨hdot, -⟩
    · rw [slugChar_dotted] at hself
      cases hself
    · exact absurd hdot (by decide)

/-- **Ids settle.**  The id of a text is never empty, and its characters are letters, numbers,
hyphens and underscores, and combining dots.  It is free of combining dots exactly if there is no
dotted capital I in the text, and exactly then it is its own id. -/
theorem slugify_settles_iff (cs : Text) :
    slugify cs ≠ [] ∧
    (∀ c ∈ slugify cs, IsSlugChar c ∨ c = '\u0307') ∧
    ((∀ c ∈ slugify cs, IsSlugChar c) ↔ 'İ' ∉ cs) ∧
    (slugify (slugify cs) = slugify cs ↔ 'İ' ∉ cs) := by
  refine ⟨slugify_ne_nil cs, fun c hc => ?_, ⟨fun h hdotted => ?_, fun h c hc => ?_⟩,
    ⟨fun h hdotted => ?_, fun h => ?_⟩⟩
  · exact (isSettled_of_mem_slugify hc).imp And.right And.left
  · exact not_isSlugChar_dot (h _ (dot_mem_slugify hdotted))
  · exact ((isSettled_of_mem_slugify hc).resolve_right fun hdot => h hdot.2).2
  · have hdot := dot_mem_slugify hdotted
    rw [← h] at hdot
    exact not_isSlugChar_dot (isSettled_of_mem_slugify_slugify hdot).2
  · exact slugify_eq_self (slugify_ne_nil cs) fun c hc =>
      (isSettled_of_mem_slugify hc).resolve_right fun hdot => h hdot.2

/-- **The dotted capital I.**  Its id has a character that is neither a letter nor a number, a
hyphen or an underscore, and turning the id into an id drops it. -/
theorem slugify_of_dotted_capital :
    (∃ c ∈ slugify ['İ'], isAlphanumeric c = false ∧ c ≠ '-' ∧ c ≠ '_') ∧
      slugify (slugify ['İ']) ≠ slugify ['İ'] := by
  have hslug : slugify ['İ'] = ['i', '\u0307'] := by decide +kernel
  have hagain : slugify ['i', '\u0307'] = ['i'] := by decide +kernel
  rw [hslug, hagain]
  exact ⟨⟨'\u0307', by simp, by decide +kernel, by decide, by decide⟩, by decide⟩

end Docmark
