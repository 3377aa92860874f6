import Mathlib
import Docmark.Text.Cursor

/-!
# Bytes and characters

Texts are cut after whole characters, while lengths are told in bytes.  The number of bytes of the
first characters of a text is a place to cut it: a cursor that consumes that many bytes takes
exactly those characters (`Cursor.CutsAt.consume_eq`).
-/

namespace Docmark

@[simp] lemma byteLength_nil : byteLength [] = 0 := rfl

@[simp] lemma byteLength_cons (c : Char) (cs : Text) :
    byteLength (c :: cs) = c.utf8Size + byteLength cs := by
  have hfold : ∀ (cs : Text) (n : Nat),
      cs.foldl (fun n c => n + c.utf8Size) n = n + cs.foldl (fun n c => n + c.utf8Size) 0 := by
    intro cs
    induction cs with
    | nil => simp
    | cons d cs ih =>
      intro n
      rw [List.foldl_cons, ih, List.foldl_cons, ih (0 + _)]
      omega
  simp only [byteLength, List.foldl_cons]
  rw [hfold]
  omega

lemma byteLength_pos {cs : Text} (h : cs ≠ []) : 0 < byteLength cs := by
  obtain ⟨c, cs, rfl⟩ := List.exists_cons_of_ne_nil h
  have := c.utf8Size_pos
  rw [byteLength_cons]
  omega

lemma byteLength_append (cs ds : Text) :
    byteLength (cs ++ ds) = byteLength cs + byteLength ds := by
  induction cs with
  | nil => simp
  | cons c cs ih =>
    rw [List.cons_append, byteLength_cons, byteLength_cons, ih]
    omega

/-- A text of which characters are left out has no more bytes. -/
lemma byteLength_le_of_sublist {cs ds : Text} (h : cs.Sublist ds) :
    byteLength cs ≤ byteLength ds := by
  induction h with
  | slnil => exact le_rfl
  | cons c _ ih =>
    rw [byteLength_cons]
    omega
  | cons_cons c _ ih =>
    rw [byteLength_cons, byteLength_cons]
    omega

/-- Each character moves a point by its bytes. -/
@[simp] lemma Point.advance_offset (p : Point) (cs : Text) :
    (p.advance cs).offset = p.offset + byteLength cs := by
  induction cs generalizing p with
  | nil => rfl
  | cons c cs ih =>
    have hstep : (p.step c).offset = p.offset + c.utf8Size := by
      simp only [Point.step]
      split <;> rfl
    rw [Point.advance_cons, ih, hstep, byteLength_cons]
    omega

namespace Cursor

/-- The bytes of the first characters of a text are covered by just those characters. -/
lemma charsCovering_byteLength {cs : Text} {n : Nat} (h : n ≤ cs.length) :
    charsCovering (byteLength (cs.take n)) cs = n := by
  induction cs generalizing n with
  | nil =>
    obtain rfl : n = 0 := by simpa using h
    simp [charsCovering]
  | cons c cs ih =>
    cases n with
    | zero => simp [charsCovering]
    | succ n =>
      have hpos := c.utf8Size_pos
      rw [List.take_succ_cons, byteLength_cons]
      obtain ⟨k, hk⟩ : ∃ k, c.utf8Size + byteLength (cs.take n) = k + 1 :=
        ⟨c.utf8Size + byteLength (cs.take n) - 1, by omega⟩
      rw [hk, charsCovering, show k + 1 - c.utf8Size = byteLength (cs.take n) by omega,
        ih (by simpa using h)]

/-- `n` characters can be taken at a cursor: there is at least one, and they are all there. -/
structure CutsAt (c : Cursor) (n : Nat) : Prop where
  pos : 0 < n
  le : n ≤ c.rest.length

/-- Counted in bytes, characters that are there end between two characters. -/
theorem CutsAt.consume_eq {c : Cursor} {n : Nat} (h : c.CutsAt n) :
    c.consume (byteLength (c.rest.take n)) = (c.rest.take n, c.spanOf n, c.drop n) := by
  simp only [consume, charsCovering_byteLength h.le]

end Cursor

end Docmark
