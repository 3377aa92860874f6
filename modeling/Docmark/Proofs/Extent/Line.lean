import Mathlib
import Docmark.Construct.Found
import Docmark.Text.Line

/-!
# The extent of lines

How many characters the pieces cover that recognisers cut out of a text.  A recogniser either counts
whole lines, or counts the characters that are gone once it has read its construct; the first kind
is bounded through `length_flatten_le`, the second through the length of what is left.

`Found.Fits` is the property that every recogniser is shown to have: its construct covers at least
one character and no more than there are.  A reading that only takes such constructs can neither
stand still nor run past the end of its input.  `HasSlice` is the property of what a construct cuts
out of its input: the part stands there, at its offset.
-/

namespace Docmark

/-- A construct covers at least one character, and no more than there are. -/
def Found.Fits {α : Type} (m : Found α) (cs : Text) : Prop := 0 < m.length ∧ m.length ≤ cs.length

lemma Found.Fits.map {α β : Type} {f : α → β} {m : Found α} {cs : Text} (h : m.Fits cs) :
    (m.map f).Fits cs := h

/-- A slice of a text: `part` stands in it, `start` characters behind its beginning. -/
def HasSlice (cs : Text) (start : Nat) (part : Text) : Prop :=
  ∃ before after, cs = before ++ part ++ after ∧ before.length = start

lemma HasSlice.append {cs part : Text} {start : Nat} (h : HasSlice cs start part) (ds : Text) :
    HasSlice (cs ++ ds) start part := by
  obtain ⟨before, after, rfl, hstart⟩ := h
  exact ⟨before, after ++ ds, by simp only [List.append_assoc], hstart⟩

/-! ## Lines -/

@[simp] lemma lines_eq_nil {cs : Text} : lines cs = [] ↔ cs = [] := by
  constructor
  · intro h
    rw [← lines_flatten cs, h, List.flatten_nil]
  · rintro rfl
    rfl

/-- Every line holds a character: its line feed, or what the text ends with. -/
lemma ne_nil_of_mem_lines {cs l : Text} (h : l ∈ lines cs) : l ≠ [] := by
  induction cs generalizing l with
  | nil => simp [lines] at h
  | cons c cs ih =>
    simp only [lines] at h
    split at h
    · rcases List.mem_cons.1 h with rfl | h
      · exact List.cons_ne_nil _ _
      · exact ih h
    · split at h
      next => rw [List.mem_singleton.1 h]; exact List.cons_ne_nil _ _
      next m ms hls =>
        rcases List.mem_cons.1 h with rfl | h
        · exact List.cons_ne_nil _ _
        · exact ih (by rw [hls]; exact List.mem_cons_of_mem _ h)

/-- The first lines of a text are the start of the text. -/
lemma flatten_initial {cs : Text} {ls : List Text} (h : ls <+: lines cs) : ls.flatten <+: cs := by
  obtain ⟨rest, hrest⟩ := h
  exact ⟨rest.flatten, by rw [← List.flatten_append, hrest, lines_flatten]⟩

/-- Lines at the start of a text cover no more characters than the text has. -/
lemma length_flatten_le {cs : Text} {ls : List Text} (h : ls <+: lines cs) :
    ls.flatten.length ≤ cs.length :=
  (flatten_initial h).length_le

lemma length_flatten_pos {cs : Text} {ls : List Text} (h : ls <+: lines cs) (hne : ls ≠ []) :
    0 < ls.flatten.length := by
  obtain ⟨l, ls, rfl⟩ := List.exists_cons_of_ne_nil hne
  have hl : l ∈ lines cs := h.subset List.mem_cons_self
  have := List.length_pos_iff.2 (ne_nil_of_mem_lines hl)
  simp only [List.flatten_cons, List.length_append]
  omega

/-- A construct of whole lines at the start of a text fits. -/
lemma fits_of_lines {α : Type} {v : α} {cs : Text} {ls : List Text} (h : ls <+: lines cs)
    (hne : ls ≠ []) : (⟨ls.flatten.length, v⟩ : Found α).Fits cs :=
  ⟨length_flatten_pos h hne, length_flatten_le h⟩

/-! ## The rest of a line -/

lemma restOfLine_append_afterLine (cs : Text) : restOfLine cs ++ afterLine cs = cs :=
  List.takeWhile_append_dropWhile

lemma length_restOfLine_add_afterLine (cs : Text) :
    (restOfLine cs).length + (afterLine cs).length = cs.length := by
  rw [← List.length_append, restOfLine_append_afterLine]

lemma leadingNewlines_le (cs : Text) : leadingNewlines cs ≤ cs.length :=
  (List.takeWhile_prefix _).length_le

/-- Characters at the start of a text and the line feeds behind them are no more than there are. -/
lemma add_leadingNewlines_le {cs : Text} {n : Nat} (h : n ≤ cs.length) :
    n + leadingNewlines (cs.drop n) ≤ cs.length := by
  have := leadingNewlines_le (cs.drop n)
  rw [List.length_drop] at this
  omega

/-! ## What is left behind a construct -/

/-- A construct that is told by what is left behind it fits if something of the text is gone. -/
lemma fits_of_left {α : Type} {v : α} {cs left : Text} (h : left.length < cs.length) :
    (⟨cs.length - left.length, v⟩ : Found α).Fits cs := by
  constructor
  · show 0 < cs.length - left.length
    omega
  · exact Nat.sub_le _ _

lemma length_dropWhile_le {p : Char → Bool} (cs : Text) : (cs.dropWhile p).length ≤ cs.length :=
  (List.dropWhile_suffix p).length_le

lemma length_takeWhile_le {p : Char → Bool} (cs : Text) : (cs.takeWhile p).length ≤ cs.length :=
  (List.takeWhile_prefix p).length_le

lemma length_dropEndWhile_le (p : Char → Bool) (cs : Text) :
    (dropEndWhile p cs).length ≤ cs.length := by
  simpa [dropEndWhile] using length_dropWhile_le (p := p) cs.reverse

lemma length_dropFront_le (c : Char) (cs : Text) : (dropFront c cs).length ≤ cs.length := by
  cases cs with
  | nil => exact le_rfl
  | cons d cs =>
    simp only [dropFront]
    split
    next => exact Nat.le_succ _
    next => exact le_rfl

/-- An occurrence of a pattern ends within the text. -/
lemma indexOf?_add_le {pattern cs : Text} {n : Nat} (h : indexOf? pattern cs = some n) :
    n + pattern.length ≤ cs.length := by
  induction cs generalizing n with
  | nil =>
    simp only [indexOf?] at h
    split at h
    next hp =>
      cases h
      simp [List.isEmpty_iff.1 hp]
    next => cases h
  | cons c cs ih =>
    simp only [indexOf?] at h
    split at h
    next hp =>
      cases h
      simpa using (List.isPrefixOf_iff_prefix.1 hp).length_le
    next =>
      obtain ⟨m, hm, rfl⟩ := Option.map_eq_some_iff.1 h
      have := ih hm
      simp only [List.length_cons]
      omega

end Docmark
