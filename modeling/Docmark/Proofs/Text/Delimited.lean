import Mathlib
import Docmark.Text.Blank

/-!
# Delimited texts

A text between two marks is found again if the mark behind it is the first place where a reader
stops.  For a run of characters that is so if the run holds no character that the reader stops at.
For a text with brackets it is so if the text closes the brackets that it opens: it holds as many
closing as opening ones and, read from the front, never closes one that is not open.  A reader that
counts brackets meets the rest of such a text behind some that are open, so `Closes` says with how
many of them the text starts.

## Main definitions

* `Balanced` — every bracket is opened before it is closed, and all are closed.
* `NestsTo` — at no place more than a given number of brackets are open.
-/

namespace Docmark

/-! ## Runs -/

section Run

variable {p : Char → Bool} {run rest : Text} {stop : Char}

lemma takeWhile_up_to (hrun : ∀ c ∈ run, p c = true) (hstop : p stop = false) :
    (run ++ stop :: rest).takeWhile p = run := by
  rw [List.takeWhile_append_of_pos hrun, List.takeWhile_cons_of_neg (by simp [hstop]),
    List.append_nil]

lemma dropWhile_up_to (hrun : ∀ c ∈ run, p c = true) (hstop : p stop = false) :
    (run ++ stop :: rest).dropWhile p = stop :: rest := by
  rw [List.dropWhile_append_of_pos hrun, List.dropWhile_cons_of_neg (by simp [hstop])]

/-- A text without two characters is a run of others. -/
lemma ne_and_ne_of_not_mem {a b : Char} (ha : a ∉ run) (hb : b ∉ run) :
    ∀ c ∈ run, (c ≠ a && c ≠ b) = true := by
  intro c hc
  have h₁ : c ≠ a := fun h => ha (h ▸ hc)
  have h₂ : c ≠ b := fun h => hb (h ▸ hc)
  simp [h₁, h₂]

end Run

/-! ## Brackets -/

/-- Behind `depth` open brackets a text never closes one that is not open, and closes all. -/
structure Closes (opening closing : Char) (depth : Nat) (cs : Text) : Prop where
  count_le : ∀ p, p <+: cs → p.count closing ≤ depth + p.count opening
  count_eq : cs.count closing = depth + cs.count opening

/-- A text whose brackets are balanced. -/
abbrev Balanced (opening closing : Char) (cs : Text) : Prop := Closes opening closing 0 cs

/-- Behind `depth` open brackets no place of a text has more than `limit` of them open. -/
def NestsTo (opening closing : Char) (limit depth : Nat) (cs : Text) : Prop :=
  ∀ p, p <+: cs → depth + p.count opening ≤ limit + p.count closing

/-- What is said of all that a text starts with can be looked through. -/
lemma forall_initial_iff {P : Text → Prop} {cs : Text} :
    (∀ p, p <+: cs → P p) ↔ ∀ p ∈ cs.inits, P p := by
  simp only [List.mem_inits]

instance (opening closing : Char) (depth : Nat) (cs : Text) :
    Decidable (Closes opening closing depth cs) :=
  decidable_of_iff ((∀ p ∈ cs.inits, p.count closing ≤ depth + p.count opening) ∧
      cs.count closing = depth + cs.count opening)
    ⟨fun h => ⟨forall_initial_iff.2 h.1, h.2⟩, fun h => ⟨forall_initial_iff.1 h.1, h.2⟩⟩

instance (opening closing : Char) (limit depth : Nat) (cs : Text) :
    Decidable (NestsTo opening closing limit depth cs) :=
  decidable_of_iff' _ forall_initial_iff

section Brackets

variable {opening closing c : Char} {limit depth : Nat} {cs : Text}

namespace Closes

lemma depth_eq (h : Closes opening closing depth []) : depth = 0 := h.count_eq.symm

lemma of_opening (h : Closes opening closing depth (opening :: cs)) (hne : opening ≠ closing) :
    Closes opening closing (depth + 1) cs where
  count_le p hp := by
    have hle := h.count_le (opening :: p) (List.cons_prefix_cons.2 ⟨rfl, hp⟩)
    rw [List.count_cons_of_ne hne, List.count_cons_self] at hle
    omega
  count_eq := by
    have heq := h.count_eq
    rw [List.count_cons_of_ne hne, List.count_cons_self] at heq
    omega

/-- A bracket is closed only where one is open. -/
lemma exists_of_closing (h : Closes opening closing depth (closing :: cs))
    (hne : opening ≠ closing) : ∃ d, depth = d + 1 ∧ Closes opening closing d cs := by
  have hopen := h.count_le [closing] ⟨cs, rfl⟩
  rw [List.count_singleton_self, List.count_cons_of_ne hne.symm, List.count_nil] at hopen
  obtain ⟨d, rfl⟩ : ∃ d, depth = d + 1 := ⟨depth - 1, by omega⟩
  refine ⟨d, rfl, fun p hp => ?_, ?_⟩
  · have hle := h.count_le (closing :: p) (List.cons_prefix_cons.2 ⟨rfl, hp⟩)
    rw [List.count_cons_self, List.count_cons_of_ne hne.symm] at hle
    omega
  · have heq := h.count_eq
    rw [List.count_cons_self, List.count_cons_of_ne hne.symm] at heq
    omega

lemma of_other (h : Closes opening closing depth (c :: cs)) (hopening : c ≠ opening)
    (hclosing : c ≠ closing) : Closes opening closing depth cs where
  count_le p hp := by
    have hle := h.count_le (c :: p) (List.cons_prefix_cons.2 ⟨rfl, hp⟩)
    rwa [List.count_cons_of_ne hopening, List.count_cons_of_ne hclosing] at hle
  count_eq := by
    have heq := h.count_eq
    rwa [List.count_cons_of_ne hopening, List.count_cons_of_ne hclosing] at heq

end Closes

namespace NestsTo

lemma depth_lt (h : NestsTo opening closing limit depth (opening :: cs)) (hne : opening ≠ closing) :
    depth < limit := by
  have hle := h [opening] ⟨cs, rfl⟩
  rw [List.count_singleton_self, List.count_cons_of_ne hne, List.count_nil] at hle
  omega

lemma of_opening (h : NestsTo opening closing limit depth (opening :: cs))
    (hne : opening ≠ closing) : NestsTo opening closing limit (depth + 1) cs := by
  intro p hp
  have hle := h (opening :: p) (List.cons_prefix_cons.2 ⟨rfl, hp⟩)
  rw [List.count_cons_self, List.count_cons_of_ne hne] at hle
  omega

lemma of_closing (h : NestsTo opening closing limit (depth + 1) (closing :: cs))
    (hne : opening ≠ closing) : NestsTo opening closing limit depth cs := by
  intro p hp
  have hle := h (closing :: p) (List.cons_prefix_cons.2 ⟨rfl, hp⟩)
  rw [List.count_cons_self, List.count_cons_of_ne hne.symm] at hle
  omega

lemma of_other (h : NestsTo opening closing limit depth (c :: cs)) (hopening : c ≠ opening)
    (hclosing : c ≠ closing) : NestsTo opening closing limit depth cs := by
  intro p hp
  have hle := h (c :: p) (List.cons_prefix_cons.2 ⟨rfl, hp⟩)
  rwa [List.count_cons_of_ne hopening, List.count_cons_of_ne hclosing] at hle

end NestsTo

end Brackets

end Docmark
