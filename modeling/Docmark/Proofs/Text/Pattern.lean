import Mathlib
import Docmark.Proofs.Container.Gleaning
import Docmark.Proofs.Extent.Pending

/-!
# Texts without a pattern

Some constructs can only be where a certain pattern is, such as a bar or two tildes.  A text without
the pattern has no such construct in it, but the texts that are read for its content are not always
pieces of it: marks are taken off lines, lines are put together and backslashes are dropped from
cells.  None of that brings a pattern about that was not there, as long as the pattern has no white
space in it and is not split by a bar (`IsSolid`).

## Main results

* `Avoids.quotedText`, `Avoids.item`, `Avoids.pending` — what is read for the content of a text
  avoids the patterns that the text avoids.
-/

namespace Docmark

/-! ## Patterns -/

/-- A text in which none of some patterns occurs. -/
def Avoids (patterns : List String) (text : Text) : Prop := ∀ p ∈ patterns, ¬ p.toList <:+: text

instance (patterns : List String) (text : Text) : Decidable (Avoids patterns text) :=
  inferInstanceAs (Decidable (∀ p ∈ patterns, _))

/-- A pattern that no rebuilding of a text brings about: it is not empty, has no white space in it,
and no bar unless it is a single character. -/
def IsSolid (p : Text) : Prop :=
  p ≠ [] ∧ (∀ c ∈ p, isSpace c = false) ∧ ('|' ∉ p ∨ p.length = 1)

instance (p : Text) : Decidable (IsSolid p) :=
  inferInstanceAs (Decidable (_ ∧ _ ∧ _))

lemma IsSolid.no_feed {p : Text} (h : IsSolid p) : '\n' ∉ p := fun hfeed =>
  absurd (h.2.1 _ hfeed) (by decide)

/-! ## Where patterns come from -/

/-- A solid pattern in a text that is gleaned from lines stands in one of the lines. -/
lemma IsSolid.of_gleaned {p : Text} (hp : IsSolid p) {ls : List Text} {cs : Text}
    (h : Gleaned ls cs) (hls : AreLines ls) (hcs : p <:+: cs) : p <:+: ls.flatten := by
  obtain ⟨l, hl, hpl⟩ := h.exists_infix hls hcs hp.no_feed hp.1
  exact hpl.trans (List.infix_of_mem_flatten hl)

/-- What stands in a part of a text on either side of another one stands in the text. -/
lemma infix_append_of_or {α : Type} {s a b : List α} (h : s <:+: a ∨ s <:+: b) (between : List α) :
    s <:+: a ++ between ++ b := by
  rcases h with h | h
  · exact h.trans ((List.prefix_append a between).isInfix.trans (List.prefix_append _ b).isInfix)
  · exact h.trans (List.suffix_append _ b).isInfix

/-- A pattern without a bar in a cell stands in the line: backslashes are dropped in front of bars
only. -/
lemma infix_of_splitBars {p : Text} (hbar : '|' ∉ p) (cell cs : Text) :
    ∀ t ∈ splitBars cell cs, p <:+: t → p <:+: cell.reverse ++ cs := by
  fun_induction splitBars cell cs with
  | case1 cell =>
    intro t ht hp
    rw [List.mem_singleton.1 ht] at hp
    rw [List.append_nil]
    exact hp.trans (trim_piece _)
  | case2 cell cs ih =>
    intro t ht hp
    have hsides := ih t ht hp
    -- the bar in the cell keeps the pattern on one side of the backslash that was dropped
    rw [List.reverse_cons, List.append_assoc, List.singleton_append] at hsides
    have hline := infix_append_of_or (infix_append_cons hbar hsides) ['\\', '|']
    rwa [List.append_assoc] at hline
  | case3 cell cs _ ih =>
    intro t ht hp
    rcases List.mem_cons.1 ht with rfl | ht
    · exact (hp.trans (trim_piece _)).trans (List.prefix_append _ _).isInfix
    · exact (ih t ht hp).trans ((List.suffix_cons _ cs).isInfix.trans
        (List.suffix_append _ _).isInfix)
  | case4 cell cs c _ _ ih =>
    intro t ht hp
    have hline := ih t ht hp
    rwa [List.reverse_cons, List.append_assoc] at hline

/-- A solid pattern in a cell stands in the line. -/
lemma IsSolid.of_splitCells {p line t : Text} (hp : IsSolid p) (ht : t ∈ splitCells line)
    (hpt : p <:+: t) : p <:+: line := by
  rcases hp.2.2 with hbar | hlength
  · exact (infix_of_splitBars hbar [] _ t ht hpt).trans (stripOuterBars_piece line)
  · obtain ⟨c, rfl⟩ := List.length_eq_one_iff.1 hlength
    have hc : c ∈ line := (splitCells_sublist line t ht).subset (hpt.subset List.mem_cons_self)
    exact (List.singleton_infix_iff c line).2 hc

/-- A solid pattern in a paragraph stands in one of its lines. -/
lemma IsSolid.of_joinParagraph {p : Text} (hp : IsSolid p) {ls : List Text} (hls : AreLines ls)
    (hblank : ∀ l ∈ ls, isBlank l = false) (h : p <:+: joinParagraph ls) : p <:+: ls.flatten := by
  have hgleaned : Gleaned ls (ls.flatMap trimStart) :=
    flatMap_gleaned fun l hl => trimStart_losesFront (hls.feed_not_mem l hl) (hblank l hl)
  exact hp.of_gleaned hgleaned hls (h.trans (dropEndWhile_initial isSpace _).isInfix)

/-! ## Texts that are read for the content of a text -/

namespace Avoids

variable {patterns : List String} {text : Text}

lemma of_piece (h : Avoids patterns text) {cs : Text} (hcs : cs <:+: text) : Avoids patterns cs :=
  fun p hp hpcs => h p hp (hpcs.trans hcs)

/-- A text starts with a pattern only if it holds it. -/
lemma not_initial (h : Avoids patterns text) {p : String} (hp : p ∈ patterns) :
    ¬ p.toList <+: text := fun hinitial => h p hp hinitial.isInfix

lemma not_mem (h : Avoids patterns text) {p : String} (hp : p ∈ patterns) {c : Char}
    (hc : p.toList = [c]) : c ∉ text := by
  intro hmem
  refine h p hp ?_
  rw [hc]
  exact (List.singleton_infix_iff c text).2 hmem

variable (hsolid : ∀ p ∈ patterns, IsSolid p.toList)

include hsolid

/-- What a text avoids, a text that is gleaned from its lines avoids. -/
lemma of_gleaned (h : Avoids patterns text) {cs : Text} (hcs : Gleaned (lines text) cs) :
    Avoids patterns cs := by
  intro p hp hpcs
  have hline := (hsolid p hp).of_gleaned hcs (lines_areLines text) hpcs
  rw [lines_flatten] at hline
  exact h p hp hline

lemma quotedText (h : Avoids patterns text) :
    Avoids patterns (quotedText (quoteLines (lines text))) :=
  h.of_gleaned hsolid (quotedText_gleaned text)

lemma item (h : Avoids patterns text) {marker : ListMarker} {scan : ListScan}
    (hscan : listScan? (lines text) = some (marker, scan)) {item : ItemScan}
    (hitem : item ∈ scan.items) : Avoids patterns (splitTask item.content).2 :=
  (h.of_gleaned hsolid (listScan?_gleaned hscan item hitem)).of_piece
    (splitTask_suffix item.content).isInfix

/-- What a construct covers avoids, the texts of a block that it leaves to the second pass avoid. -/
lemma pending (h : Avoids patterns text) {q : Point} {c : BlockConstruct} {p : Pending}
    (hp : p.IsFrom q text c) : ∀ t ∈ p.texts, Avoids patterns t := by
  have hnil : Avoids patterns [] := fun s hs hnil => (hsolid s hs).1 (List.infix_nil.1 hnil)
  cases hp with
  | heading hline =>
    intro t ht
    rw [List.mem_singleton.1 ht]
    exact h.of_piece ((List.suffix_append _ _).isInfix.trans
      (hline.trans (restOfLine_initial text)).isInfix)
  | title hline =>
    intro t ht
    rw [List.mem_singleton.1 ht, hline]
    exact h.of_piece ((trim_piece _).trans (restOfLine_initial text).isInfix)
  | @paragraph c form ls scope hform hls hblank =>
    have hjoin : Avoids patterns (joinParagraph ls) := by
      rcases hblank with hblank | hblank
      · intro s hs hsub
        have hline := (hsolid s hs).of_joinParagraph ((lines_areLines text).initial hls) hblank hsub
        exact h s hs (hline.trans (flatten_initial hls).isInfix)
      · rw [hblank]
        exact hnil
    intro t ht
    rcases hform with rfl | rfl <;>
    · rw [List.mem_singleton.1 ht]
      exact hjoin
  | table hcells =>
    intro t ht
    rcases hcells t ht with rfl | ⟨line, hline, hcell⟩
    · exact hnil
    · exact fun s hs hst => h s hs (((hsolid s hs).of_splitCells hcell hst).trans hline)

end Avoids

end Docmark
