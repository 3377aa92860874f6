import Mathlib
import Docmark.Text.Lowercase
import Docmark.Text.Word

/-!
# Letters and numbers

No letter or number is white space.  The lower-case form of a letter or number is a letter or number
that is its own lower-case form.  There is one exception: the dotted capital I becomes two
characters, and the second one is a mark.

## Main results

* `isSpace_of_isAlphanumeric` — letters and numbers are no white space.
* `exists_lowerChar` — the lower-case form of any character but the dotted capital I.
-/

namespace Docmark

/-! ## White space -/

/-- No letter or number above ASCII is white space. -/
lemma spaceRanges_apart : ∀ s ∈ spaceRanges, ∀ r ∈ alphabeticRanges ++ otherNumericRanges,
    s.2 < r.1 ∨ r.2 < s.1 := by
  decide +kernel

lemma isAlphanum_bounds {c : Char} (h : c.isAlphanum = true) : 48 ≤ c.toNat ∧ c.toNat < 128 := by
  simp only [Char.isAlphanum, Char.isAlpha, Char.isUpper, Char.isLower, Char.isDigit,
    Bool.or_eq_true, Bool.and_eq_true, decide_eq_true_eq, ge_iff_le, UInt32.le_iff_toNat_le,
    Char.toNat_val, Char.reduceToNat] at h
  omega

lemma isSpace_of_isAlphanumeric {c : Char} (h : isAlphanumeric c = true) : isSpace c = false := by
  rw [← Bool.not_eq_true]
  intro hspace
  simp only [isAlphanumeric, inRanges, ← List.any_append, Bool.or_eq_true, Bool.and_eq_true,
    List.any_eq_true, decide_eq_true_eq] at h
  simp only [isSpace, inRanges, Bool.or_eq_true, Bool.and_eq_true, List.any_eq_true,
    decide_eq_true_eq, beq_iff_eq, Char.le_def, UInt32.le_iff_toNat_le, Char.toNat_val,
    Char.reduceToNat] at hspace
  have hlow : c.toNat ≤ 32 ∨ 128 ≤ c.toNat ∧ ∃ s ∈ spaceRanges, s.1 ≤ c.toNat ∧ c.toNat ≤ s.2 := by
    rcases hspace with (rfl | hcontrol) | hhigh
    · exact .inl (by decide)
    · exact .inl (by omega)
    · exact .inr hhigh
  rcases h with hascii | ⟨hhigh, r, hr, hmem⟩
  · have hbounds := isAlphanum_bounds hascii
    omega
  · rcases hlow with hlow | ⟨-, s, hs, hmem'⟩
    · omega
    · have hapart := spaceRanges_apart s hs r hr
      omega

/-! ## The images of a run -/

namespace CaseRun

/-- The last code point that a run maps to. -/
def lastImage (r : CaseRun) : Nat := r.image + (r.last - r.first)

/-- Whether the images of a run lie in a range. -/
def hasImagesIn (r : CaseRun) (range : Nat × Nat) : Bool :=
  Nat.ble range.1 r.image && Nat.ble r.lastImage range.2

/-- Whether the images of a run are characters. -/
def hasCharImages (r : CaseRun) : Bool :=
  r.hasImagesIn (0, 0xD7FF) || r.hasImagesIn (0xE000, 0x10FFFF)

/-- Whether a run maps no image of the run `r`: it lies elsewhere, or both runs take every second
code point and the images are the ones in between. -/
def sparesImages (r s : CaseRun) : Bool :=
  Nat.blt s.last r.image || Nat.blt r.lastImage s.first ||
    s.step == 2 && (r.first == r.last || r.step == 2) && (r.image + s.first) % 2 == 1

variable {r s : CaseRun} {n : Nat}

lemma covers_iff : r.covers n = true ↔ r.first ≤ n ∧ n ≤ r.last ∧ (n - r.first) % r.step = 0 := by
  simp [covers, and_assoc]

lemma toNat_apply (hr : r.hasCharImages = true) (hn : r.covers n = true) :
    (r.apply n).toNat = r.image + (n - r.first) := by
  obtain ⟨hfirst, hlast, -⟩ := covers_iff.1 hn
  simp only [hasCharImages, hasImagesIn, lastImage, Bool.or_eq_true, Bool.and_eq_true,
    Nat.ble_eq] at hr
  have hvalid : (r.image + (n - r.first)).isValidChar := by
    rw [Nat.isValidChar]
    omega
  rw [apply, Char.ofNat, dif_pos hvalid]
  rfl

/-- A run that spares the images of another one does not map any of them. -/
lemma not_covers_of_sparesImages (h : r.sparesImages s = true) (hn : r.covers n = true) :
    s.covers (r.image + (n - r.first)) = false := by
  rw [← Bool.not_eq_true, covers_iff]
  rintro ⟨hfirst, hlast, hstep⟩
  obtain ⟨hrfirst, hrlast, hrstep⟩ := covers_iff.1 hn
  simp only [sparesImages, lastImage, Bool.or_eq_true, Bool.and_eq_true, Nat.blt_eq,
    beq_iff_eq] at h
  rcases h with (h | h) | ⟨⟨hs, hr | hr⟩, hodd⟩
  · omega
  · omega
  · rw [hs] at hstep
    omega
  · rw [hs] at hstep
    rw [hr] at hrstep
    omega

end CaseRun

/-! ## The runs of the table -/

/-- The images are letters; one of them is an ASCII letter, that of the Kelvin sign. -/
lemma lowerRuns_letters :
    (lowerRuns.all fun r => r.image == 'k'.toNat && r.first == r.last ||
      Nat.ble 128 r.image && alphabeticRanges.any r.hasImagesIn) = true := by
  decide +kernel

lemma lowerRuns_chars : (lowerRuns.all CaseRun.hasCharImages) = true := by
  decide +kernel

/-- No image has a lower-case form of its own, by the table or as the dotted capital I. -/
lemma lowerRuns_spare :
    (lowerRuns.all fun r => (⟨'İ'.toNat, 'İ'.toNat, 1, 0⟩ :: lowerRuns).all r.sparesImages) =
      true := by
  decide +kernel

/-! ## Characters -/

lemma lowerChar_ascii {c : Char} (hc : c.toNat < 128) :
    lowerChar c = [c.toLower] ∧ lowerChar c.toLower = [c.toLower] ∧
      (isAlphanumeric c = true → isAlphanumeric c.toLower = true) := by
  have hall : ∀ n < 128, lowerChar (Char.ofNat n).toLower = [(Char.ofNat n).toLower] ∧
      (isAlphanumeric (Char.ofNat n) = true → isAlphanumeric (Char.ofNat n).toLower = true) := by
    decide +kernel
  have h := hall c.toNat hc
  rw [Char.ofNat_toNat] at h
  exact ⟨by rw [lowerChar, if_pos hc], h⟩

/-- The image of a character under a run is a letter, and its own lower-case form. -/
lemma CaseRun.lowerChar_apply {r : CaseRun} (hr : r ∈ lowerRuns) {n : Nat}
    (hn : r.covers n = true) :
    lowerChar (r.apply n) = [r.apply n] ∧ isAlphanumeric (r.apply n) = true := by
  have himage := toNat_apply (List.all_eq_true.1 lowerRuns_chars r hr) hn
  obtain ⟨hfirst, hlast, -⟩ := covers_iff.1 hn
  have hletter := List.all_eq_true.1 lowerRuns_letters r hr
  simp only [Bool.or_eq_true, Bool.and_eq_true, beq_iff_eq, Nat.ble_eq, List.any_eq_true,
    hasImagesIn, lastImage] at hletter
  rcases hletter with ⟨hk, hone⟩ | ⟨habove, range, hrange, hlow, hhigh⟩
  · have happly : r.apply n = 'k' := by
      apply Char.toNat_inj.1
      omega
    rw [happly]
    decide
  · have hspare := List.all_eq_true.1 (List.all_eq_true.1 lowerRuns_spare r hr)
    have hnotDotted : r.apply n ≠ 'İ' := by
      intro hdotted
      have hnot := not_covers_of_sparesImages (hspare _ List.mem_cons_self) hn
      rw [← himage, hdotted] at hnot
      exact absurd hnot (by decide)
    have hnone : lowerRuns.find? (·.covers (r.apply n).toNat) = none := by
      rw [List.find?_eq_none]
      intro s hs
      rw [himage, not_covers_of_sparesImages (hspare s (List.mem_cons_of_mem _ hs)) hn]
      exact Bool.false_ne_true
    refine ⟨?_, ?_⟩
    · rw [lowerChar, if_neg (by omega), if_neg hnotDotted, hnone]
    · have hmem : inRanges alphabeticRanges (r.apply n) = true := by
        rw [inRanges, List.any_eq_true]
        refine ⟨range, hrange, ?_⟩
        simp only [Bool.and_eq_true, decide_eq_true_eq]
        omega
      simp only [isAlphanumeric, hmem, Bool.true_or, Bool.and_true, Bool.or_eq_true,
        decide_eq_true_eq]
      omega

/-- Every character but the dotted capital I has one character as its lower-case form, which is its
own lower-case form and a letter or number if the character is one. -/
lemma exists_lowerChar {c : Char} (hc : c ≠ 'İ') :
    ∃ d, lowerChar c = [d] ∧ lowerChar d = [d] ∧
      (isAlphanumeric c = true → isAlphanumeric d = true) := by
  by_cases hascii : c.toNat < 128
  · exact ⟨c.toLower, lowerChar_ascii hascii⟩
  · cases hfind : lowerRuns.find? (·.covers c.toNat) with
    | none =>
      have hself : lowerChar c = [c] := by rw [lowerChar, if_neg hascii, if_neg hc, hfind]
      exact ⟨c, hself, hself, id⟩
    | some r =>
      have himage : lowerChar c = [r.apply c.toNat] := by
        rw [lowerChar, if_neg hascii, if_neg hc, hfind]
      have hcovers : r.covers c.toNat = true := by simpa using List.find?_some hfind
      obtain ⟨hfixed, halnum⟩ := CaseRun.lowerChar_apply (List.mem_of_find?_eq_some hfind) hcovers
      exact ⟨r.apply c.toNat, himage, hfixed, fun _ => halnum⟩

end Docmark
