import Mathlib
import Docmark.Proofs.Text.Lines

/-!
# Texts that are gleaned from lines

A container takes the text of its content from its lines.  It leaves out something at the front of
each, but never a line feed; it may leave out whole lines, and put line feeds in their place.  What
such a text holds within a line it has from one line (`Gleaned.exists_infix`), and it holds no
character but line feeds more often than the lines do (`Gleaned.count_le`).
-/

namespace Docmark

/-! ## Lines that lose their front -/

/-- A line of which something without a line feed is left out at the front. -/
def LosesFront (line rest : Text) : Prop := ∃ front, '\n' ∉ front ∧ line = front ++ rest

namespace LosesFront

lemma refl (line : Text) : LosesFront line line := ⟨[], by simp, rfl⟩

lemma cons {c : Char} (hc : c ≠ '\n') (line : Text) : LosesFront (c :: line) line :=
  ⟨[c], by simpa using hc.symm, rfl⟩

lemma trans {line middle rest : Text} (h : LosesFront line middle) (h' : LosesFront middle rest) :
    LosesFront line rest := by
  obtain ⟨front, hfront, rfl⟩ := h
  obtain ⟨front', hfront', rfl⟩ := h'
  exact ⟨front ++ front', by simp [hfront, hfront'], (List.append_assoc _ _ _).symm⟩

lemma dropWhile {p : Char → Bool} (hp : p '\n' = false) (line : Text) :
    LosesFront line (line.dropWhile p) := by
  refine ⟨line.takeWhile p, fun hfeed => ?_, List.takeWhile_append_dropWhile.symm⟩
  rw [List.mem_takeWhile_imp hfeed] at hp
  cases hp

/-- Characters of a run at the front of a line are left out. -/
lemma drop {p : Char → Bool} (hp : p '\n' = false) {line : Text} {n : Nat}
    (hn : n ≤ (line.takeWhile p).length) : LosesFront line (line.drop n) := by
  refine ⟨line.take n, fun hfeed => ?_, (List.take_append_drop n line).symm⟩
  have hinitial : line.take n <+: line.takeWhile p :=
    List.prefix_of_prefix_length_le (List.take_prefix n line) (List.takeWhile_prefix p)
      ((List.length_take_le n line).trans hn)
  rw [List.mem_takeWhile_imp (hinitial.subset hfeed)] at hp
  cases hp

end LosesFront

/-- A line has a line feed at its end only. -/
lemma AreLines.feed_not_mem {ls : List Text} (h : AreLines ls) : ∀ l ∈ ls, '\n' ∉ l.dropLast := by
  induction h with
  | nil => simp
  | last _ hl => simpa using fun hmem => hl (List.mem_of_mem_dropLast hmem)
  | cons hl _ ih => exact List.forall_mem_cons.2 ⟨by simpa using hl, ih⟩

/-- Trimming a line that is not blank leaves its line feed. -/
lemma trimStart_losesFront {line : Text} (hline : '\n' ∉ line.dropLast)
    (hblank : isBlank line = false) : LosesFront line (trimStart line) := by
  refine ⟨line.takeWhile isSpace, fun hfeed => hline ?_, List.takeWhile_append_dropWhile.symm⟩
  have hne : trimStart line ≠ [] := by
    intro hnil
    have hall : isBlank line = true := List.all_eq_true.2 (List.dropWhile_eq_nil_iff.1 hnil)
    rw [hall] at hblank
    cases hblank
  have hsplit : line = line.takeWhile isSpace ++ trimStart line :=
    List.takeWhile_append_dropWhile.symm
  rw [hsplit, List.dropLast_append_of_ne_nil hne]
  exact List.mem_append_left _ hfeed

/-! ## Texts from lines -/

/-- A text of what is left of some lines, in their order, with line feeds put in. -/
inductive Gleaned : List Text → Text → Prop
  | nil : Gleaned [] []
  | skip {l : Text} {ls : List Text} {cs : Text} (h : Gleaned ls cs) : Gleaned (l :: ls) cs
  | take {l rest : Text} {ls : List Text} {cs : Text} (hl : LosesFront l rest) (h : Gleaned ls cs) :
      Gleaned (l :: ls) (rest ++ cs)
  | feed {ls : List Text} {cs : Text} (h : Gleaned ls cs) : Gleaned ls ('\n' :: cs)

namespace Gleaned

lemma none : ∀ ls : List Text, Gleaned ls []
  | [] => .nil
  | _ :: ls => .skip (none ls)

lemma append {ls ls' : List Text} {cs cs' : Text} (h : Gleaned ls cs) (h' : Gleaned ls' cs') :
    Gleaned (ls ++ ls') (cs ++ cs') := by
  induction h with
  | nil => exact h'
  | skip _ ih => exact .skip ih
  | take hl _ ih =>
    rw [List.append_assoc]
    exact .take hl ih
  | feed _ ih => exact .feed ih

lemma one {l rest : Text} (hl : LosesFront l rest) : Gleaned [l] rest := by
  have htake : Gleaned [l] (rest ++ []) := .take hl .nil
  rwa [List.append_nil] at htake

/-- Lines behind those that a text is gleaned from make no difference. -/
lemma append_right {ls : List Text} {cs : Text} (h : Gleaned ls cs) (ls' : List Text) :
    Gleaned (ls ++ ls') cs := by
  have happend := h.append (Gleaned.none ls')
  rwa [List.append_nil] at happend

lemma count_le {c : Char} (hc : c ≠ '\n') {ls : List Text} {cs : Text} (h : Gleaned ls cs) :
    cs.count c ≤ ls.flatten.count c := by
  induction h with
  | nil => exact le_rfl
  | skip _ ih =>
    rw [List.flatten_cons, List.count_append]
    exact ih.trans (Nat.le_add_left _ _)
  | take hl _ ih =>
    obtain ⟨front, -, rfl⟩ := hl
    simp only [List.flatten_cons, List.count_append]
    omega
  | feed _ ih => rwa [List.count_cons_of_ne hc.symm]

end Gleaned

/-- What stands around a character without holding it stands on one side of it. -/
lemma infix_append_cons {α : Type} {s a b : List α} {x : α} (hx : x ∉ s) (h : s <:+: a ++ x :: b) :
    s <:+: a ∨ s <:+: b := by
  obtain ⟨before, after, h⟩ := h
  rcases List.append_eq_append_iff.1 h with ⟨between, rfl, -⟩ | ⟨between, hbefore, hafter⟩
  · exact .inl ⟨before, between, rfl⟩
  · cases between with
    | nil =>
      rw [List.append_nil] at hbefore
      exact .inl ⟨before, [], by rw [List.append_nil, hbefore]⟩
    | cons y between =>
      obtain ⟨rfl, rfl⟩ := List.cons.inj hafter
      rcases List.append_eq_append_iff.1 hbefore with ⟨left, -, rfl⟩ | ⟨left, -, hright⟩
      · exact absurd (by simp) hx
      · cases left with
        | nil =>
          rw [List.nil_append] at hright
          exact absurd (hright ▸ List.mem_cons_self) hx
        | cons z left =>
          obtain ⟨rfl, rfl⟩ := List.cons.inj hright
          exact .inr ⟨left, after, rfl⟩

/-- What a gleaned text holds within a line stands in one of the lines. -/
lemma Gleaned.exists_infix {ls : List Text} {cs s : Text} (h : Gleaned ls cs) (hls : AreLines ls)
    (hs : s <:+: cs) (hfeed : '\n' ∉ s) (hne : s ≠ []) : ∃ l ∈ ls, s <:+: l := by
  induction h with
  | nil => exact absurd (List.infix_nil.1 hs) hne
  | skip _ ih =>
    obtain ⟨l, hl, hsl⟩ := ih hls.tail hs
    exact ⟨l, List.mem_cons_of_mem _ hl, hsl⟩
  | feed _ ih =>
    rcases infix_append_cons (a := []) hfeed hs with hnil | hs
    · exact absurd (List.infix_nil.1 hnil) hne
    · exact ih hls hs
  | @take l rest ls cs hl h ih =>
    have hrest (hsrest : s <:+: rest) : ∃ l' ∈ l :: ls, s <:+: l' := by
      obtain ⟨front, -, rfl⟩ := hl
      exact ⟨_, List.mem_cons_self, hsrest.trans (List.suffix_append _ _).isInfix⟩
    have hcs (hscs : s <:+: cs) : ∃ l' ∈ l :: ls, s <:+: l' := by
      obtain ⟨l', hl', hsl⟩ := ih hls.tail hscs
      exact ⟨l', List.mem_cons_of_mem _ hl', hsl⟩
    cases hls with
    | last =>
      -- behind the last line there are only line feeds
      cases h with
      | nil =>
        rw [List.append_nil] at hs
        exact hrest hs
      | @feed _ cs _ =>
        rcases infix_append_cons hfeed hs with hs | hs
        · exact hrest hs
        · exact hcs (hs.trans (List.suffix_cons '\n' cs).isInfix)
    | cons hline _ =>
      obtain ⟨front, hfront, heq⟩ := hl
      rcases List.eq_nil_or_concat rest with rfl | ⟨body, c, rfl⟩
      · exact hcs hs
      · rw [List.concat_eq_append] at heq hs hrest
        have hc : c = '\n' := by
          rw [← List.append_assoc] at heq
          have hlast : ['\n'] = [c] := (List.append_inj' heq rfl).2
          exact (List.cons.inj hlast).1.symm
        rw [hc, List.append_assoc, List.singleton_append] at hs
        rcases infix_append_cons hfeed hs with hs | hs
        · exact hrest (hs.trans (List.prefix_append _ _).isInfix)
        · exact hcs hs

end Docmark
