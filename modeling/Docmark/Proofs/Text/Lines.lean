import Mathlib
import Docmark.Text.Line

/-!
# Texts that are put together from lines

A text is cut into lines, each line is changed at its front, and the lines are put together again.
`AreLines` is what makes that harmless: lines of this form are the lines of the text that they make
up (`AreLines.lines_flatten`), and writing something without a line feed in front of them keeps the
form.
-/

namespace Docmark

/-- Lines as a text has them: each holds one line feed, at its end, which only the last one may
lack, and none is empty. -/
inductive AreLines : List Text → Prop
  | nil : AreLines []
  | last {l : Text} : l ≠ [] → '\n' ∉ l → AreLines [l]
  | cons {l : Text} {ls : List Text} : '\n' ∉ l → AreLines ls → AreLines ((l ++ ['\n']) :: ls)

namespace AreLines

/-- What is written in front of the first line becomes part of it. -/
lemma prepend {p l : Text} {ls : List Text} (hp : '\n' ∉ p) (h : AreLines (l :: ls)) :
    AreLines ((p ++ l) :: ls) := by
  cases h with
  | last hne hl => exact .last (by simp [hne]) (by simp [hp, hl])
  | @cons l _ hl hls =>
    rw [← List.append_assoc]
    exact .cons (by simp [hp, hl]) hls

lemma tail {l : Text} {ls : List Text} (h : AreLines (l :: ls)) : AreLines ls := by
  cases h with
  | last => exact .nil
  | cons _ hls => exact hls

/-- The first lines of a text are lines too. -/
lemma initial {ls ls' : List Text} (h : AreLines ls) (hinitial : ls' <+: ls) : AreLines ls' := by
  induction h generalizing ls' with
  | nil => exact List.prefix_nil.1 hinitial ▸ .nil
  | @last l hne hl =>
    rcases List.prefix_cons_iff.1 hinitial with rfl | ⟨ls'', rfl, hnil⟩
    · exact .nil
    · exact List.prefix_nil.1 hnil ▸ .last hne hl
  | @cons l ls hl _ ih =>
    rcases List.prefix_cons_iff.1 hinitial with rfl | ⟨ls'', rfl, hinitial'⟩
    · exact .nil
    · exact .cons hl (ih hinitial')

/-- What is written in front of every line becomes part of each. -/
lemma map {f : Text → Text} (hf : ∀ l, ∃ p, '\n' ∉ p ∧ f l = p ++ l) {ls : List Text}
    (h : AreLines ls) : AreLines (ls.map f) := by
  induction h with
  | nil => exact .nil
  | @last l hne hl =>
    obtain ⟨p, hp, hfl⟩ := hf l
    rw [List.map_singleton, hfl]
    exact (AreLines.last hne hl).prepend hp
  | @cons l ls hl _ ih =>
    obtain ⟨p, hp, hfl⟩ := hf (l ++ ['\n'])
    rw [List.map_cons, hfl]
    exact (AreLines.cons hl ih).prepend hp

/-- What is written in front of the first line, and in front of every further one. -/
lemma cons_map {f : Text → Text} (hf : ∀ l, ∃ p, '\n' ∉ p ∧ f l = p ++ l) {p l : Text}
    {ls : List Text} (hp : '\n' ∉ p) (h : AreLines (l :: ls)) :
    AreLines ((p ++ l) :: ls.map f) := by
  refine prepend hp ?_
  cases h with
  | last hne hl => exact .last hne hl
  | cons hl hls => exact .cons hl (hls.map hf)

end AreLines

lemma lines_of_last {l : Text} (hne : l ≠ []) (hl : '\n' ∉ l) : lines l = [l] := by
  induction l with
  | nil => exact absurd rfl hne
  | cons c l ih =>
    obtain ⟨hc, hl⟩ := not_or.1 (mt List.mem_cons.2 hl)
    rw [lines, if_neg (Ne.symm hc)]
    cases l with
    | nil => rfl
    | cons d l => rw [ih (List.cons_ne_nil _ _) hl]

lemma lines_of_line {l : Text} (hl : '\n' ∉ l) (cs : Text) :
    lines (l ++ '\n' :: cs) = (l ++ ['\n']) :: lines cs := by
  induction l with
  | nil => rfl
  | cons c l ih =>
    obtain ⟨hc, hl⟩ := not_or.1 (mt List.mem_cons.2 hl)
    rw [List.cons_append, lines, if_neg (Ne.symm hc), ih hl]
    rfl

lemma lines_areLines (cs : Text) : AreLines (lines cs) := by
  induction cs with
  | nil => exact .nil
  | cons c cs ih =>
    rw [lines]
    split
    next hc => exact hc ▸ .cons (l := []) (by simp) ih
    next hc =>
      split
      next => exact .last (List.cons_ne_nil _ _) (by simpa using Ne.symm hc)
      next l ls hls =>
        rw [hls] at ih
        exact ih.prepend (p := [c]) (by simpa using Ne.symm hc)

/-- The first line of a text is what stands in front of its first line feed, with the line feed if
there is one. -/
lemma head_of_lines {cs l : Text} {ls : List Text} (h : lines cs = l :: ls) :
    l = restOfLine cs ∨ l = restOfLine cs ++ ['\n'] := by
  have hcs : cs = l ++ ls.flatten := by rw [← lines_flatten cs, h, List.flatten_cons]
  have hline {l : Text} (hl : '\n' ∉ l) : ∀ c ∈ l, decide (c ≠ '\n') = true := by
    intro c hc
    simpa using fun hfeed : c = '\n' => hl (hfeed ▸ hc)
  have hlines := h ▸ lines_areLines cs
  cases hlines with
  | last hne hl =>
    left
    rw [hcs, restOfLine, List.flatten_nil, List.append_nil, List.takeWhile_eq_self_iff.2 (hline hl)]
  | @cons l _ hl =>
    right
    rw [hcs, restOfLine, List.append_assoc, List.takeWhile_append_of_pos (hline hl)]
    simp

/-- Lines of the right form are the lines of the text that they make up. -/
theorem AreLines.lines_flatten {ls : List Text} (h : AreLines ls) : lines ls.flatten = ls := by
  induction h with
  | nil => rfl
  | last hne hl => rw [List.flatten_singleton, lines_of_last hne hl]
  | cons hl _ ih =>
    rw [List.flatten_cons, List.append_assoc, List.singleton_append, lines_of_line hl, ih]

/-- Lines behind which there are further ones are cut off as they are, whatever follows. -/
lemma AreLines.lines_append {ls ls' : List Text} (h : AreLines (ls ++ ls')) (hne : ls' ≠ [])
    (cs : Text) : lines (ls.flatten ++ cs) = ls ++ lines cs := by
  induction ls with
  | nil => rfl
  | cons l ls ih =>
    rw [List.cons_append] at h
    have htail := ih h.tail
    generalize hrest : ls ++ ls' = rest at h
    cases h with
    | last => exact absurd (List.append_eq_nil_iff.1 hrest).2 hne
    | cons hl _ =>
      rw [List.flatten_cons, List.append_assoc, List.append_assoc, List.singleton_append,
        lines_of_line hl, htail]
      rfl

/-- A text is cut at each of its line feeds by itself. -/
lemma lines_append_feed (cs ds : Text) :
    lines (cs ++ '\n' :: ds) = lines (cs ++ ['\n']) ++ lines ds := by
  induction cs with
  | nil => rfl
  | cons c cs ih =>
    have hne : lines (cs ++ ['\n']) ≠ [] := fun h => by
      have hflatten := lines_flatten (cs ++ ['\n'])
      simp [h] at hflatten
    obtain ⟨l, ls, hls⟩ := List.exists_cons_of_ne_nil hne
    rw [List.cons_append, List.cons_append, lines, lines, ih, hls]
    split
    next => rfl
    next => rfl

/-! ## Indentation -/

/-- White space only adds columns. -/
lemma le_indentFrom (w : Nat) (cs : Text) : w ≤ indentFrom w cs := by
  induction cs generalizing w with
  | nil => exact le_rfl
  | cons c cs ih =>
    rw [indentFrom]
    split
    next => exact (Nat.le_succ w).trans (ih _)
    next =>
      split
      next => exact (Nat.le_add_right w _).trans (ih _)
      next => exact le_rfl

/-- A tab reaches the fourth column at least, so the pads of less indentation are blanks. -/
lemma eq_blank_of_indentFrom_le {pads rest : Text} {w : Nat} (hpads : ∀ c ∈ pads, isPad c = true)
    (h : indentFrom w (pads ++ rest) ≤ 3) : ∀ c ∈ pads, c = ' ' := by
  induction pads generalizing w with
  | nil => simp
  | cons c pads ih =>
    obtain ⟨hc, hrest⟩ := List.forall_mem_cons.1 hpads
    rw [List.cons_append, indentFrom] at h
    rcases (by simpa [isPad] using hc : c = ' ' ∨ c = '\t') with rfl | rfl
    · rw [if_pos rfl] at h
      exact List.forall_mem_cons.2 ⟨rfl, ih hrest h⟩
    · rw [if_neg (by decide), if_pos rfl] at h
      have htab := le_indentFrom (w + (4 - w % 4)) (pads ++ rest)
      omega

end Docmark
