import Mathlib
import Docmark.Proofs.Reading.Dialects
import Docmark.Proofs.Text.Letters

/-!
# Underscores in words

In a text of letters, numbers and underscores only underscores can close a span.  Strong emphasis is
closed by the last two of some that stand together; emphasis passes over pairs and over single ones
inside the word, so the last of an odd number at the end of the word closes it.  Which words have a
span behind an underscore follows from where their underscores stand.

## Main results

* `closingPair?_isSome`, `closingMark?_isSome` — when the closing underscores are found.
* `opensSpan_iff` — a span opens behind an underscore exactly in the words of `OpensSpan`.
-/

namespace Docmark

/-! ## Letters, numbers and underscores -/

/-- A text of letters, numbers and underscores. -/
def IsWordText (cs : Text) : Prop := ∀ c ∈ cs, isAlphanumeric c = true ∨ c = '_'

namespace IsWordText

variable {c : Char} {cs cs' : Text}

lemma isSpace_eq_false (h : IsWordText cs) (hc : c ∈ cs) : isSpace c = false := by
  rcases h c hc with halnum | rfl
  · exact isSpace_of_isAlphanumeric halnum
  · decide

lemma not_mem (h : IsWordText cs) (hc : (!isAlphanumeric c && c != '_') = true) : c ∉ cs := by
  simp only [Bool.and_eq_true, Bool.not_eq_true', bne_iff_ne] at hc
  exact fun hmem => (h c hmem).elim (by simp [hc.1]) hc.2

lemma of_subset (h : IsWordText cs) (hsub : cs' ⊆ cs) : IsWordText cs' := fun c hc => h c (hsub hc)

end IsWordText

/-! ## The underscores at the end of a word -/

/-- The number of underscores at the end of a text. -/
def endMarks (cs : Text) : Nat := (cs.rtakeWhile (· = '_')).length

section EndMarks

variable {c : Char}

lemma endMarks_append_cons (before : Text) (hc : c ≠ '_') (after : Text) :
    endMarks (before ++ c :: after) = endMarks after := by
  have hreverse : (before ++ c :: after).reverse = after.reverse ++ c :: before.reverse := by simp
  have hrun : (after.reverse ++ c :: before.reverse).takeWhile (· = '_') =
      after.reverse.takeWhile (· = '_') := by
    rw [List.takeWhile_append]
    split_ifs with hall
    · rw [List.takeWhile_cons_of_neg (by simpa using hc), List.append_nil]
      exact ((List.takeWhile_prefix _).eq_of_length hall).symm
    · rfl
  rw [endMarks, endMarks, List.rtakeWhile, List.rtakeWhile, hreverse, hrun]

lemma endMarks_of_suffix {after cs : Text} (hc : c ≠ '_') (h : c :: after <:+ cs) :
    endMarks cs = endMarks after := by
  obtain ⟨before, rfl⟩ := h
  exact endMarks_append_cons before hc after

lemma endMarks_cons_of_ne (hc : c ≠ '_') (after : Text) : endMarks (c :: after) = endMarks after :=
  endMarks_append_cons [] hc after

lemma endMarks_replicate (n : Nat) : endMarks (List.replicate n '_') = n := by
  have hall : (List.replicate n '_').rtakeWhile (· = '_') = List.replicate n '_' :=
    List.rtakeWhile_eq_self_iff.2 (by simp)
  rw [endMarks, hall, List.length_replicate]

/-- A text is a run of underscores, or a run of them stands in front of another character. -/
lemma exists_marks (cs : Text) : (∃ n, cs = List.replicate n '_') ∨
    ∃ n c after, c ≠ '_' ∧ cs = List.replicate n '_' ++ c :: after := by
  induction cs with
  | nil => exact .inl ⟨0, rfl⟩
  | cons c cs ih =>
    by_cases hc : c = '_'
    · subst hc
      rcases ih with ⟨n, rfl⟩ | ⟨n, d, after, hd, rfl⟩
      · exact .inl ⟨n + 1, rfl⟩
      · exact .inr ⟨n + 1, d, after, hd, rfl⟩
    · exact .inr ⟨0, c, cs, hc, rfl⟩

/-- Two underscores in front of a text do not change whether those at its end are an odd number. -/
lemma endMarks_pair (cs : Text) : endMarks ('_' :: '_' :: cs) % 2 = endMarks cs % 2 := by
  rcases exists_marks cs with ⟨n, rfl⟩ | ⟨n, c, after, hc, rfl⟩
  · have hlonger : '_' :: '_' :: List.replicate n '_' = List.replicate (n + 2) '_' := rfl
    rw [hlonger, endMarks_replicate, endMarks_replicate, Nat.add_mod_right]
  · have hlonger : '_' :: '_' :: (List.replicate n '_' ++ c :: after) =
        List.replicate (n + 2) '_' ++ c :: after := rfl
    rw [hlonger, endMarks_append_cons _ hc, endMarks_append_cons _ hc]

end EndMarks

/-! ## Where a span opens -/

/-- A single underscore stands at the start of a text. -/
def StartsSingle (cs : Text) : Prop := cs.head? = some '_' ∧ (cs.drop 1).head? ≠ some '_'

section Closing

variable {cs : Text}

lemma closingPair?_inside {mark c : Char} (hc : c ≠ '\\') (cs : Text) :
    closingPair? mark false (c :: cs) =
      if c = mark ∧ cs.head? = some mark ∧ (cs.drop 1).head? ≠ some mark then some 0
      else (closingPair? mark false cs).map (· + 1) := by
  rw [closingPair?]
  · simp only [Bool.false_eq_true, not_false_eq_true, true_and]
  · exact hc

lemma closingPair?_start {mark c : Char} (hc : c ≠ '\\') (cs : Text) :
    closingPair? mark true (c :: cs) = (closingPair? mark false cs).map (· + 1) := by
  rw [closingPair?]
  · exact if_neg fun h => h.1 rfl
  · exact hc

/-- **The closing pair**: of the marks that stand together the last two close. -/
lemma closingPair?_isSome {mark : Char} (hslash : '\\' ∉ cs) :
    (closingPair? mark false cs).isSome = true ↔ [mark, mark] <:+: cs := by
  induction cs with
  | nil => simp [closingPair?]
  | cons c cs ih =>
    obtain ⟨hc, hcs⟩ := not_or.1 (List.mem_cons.not.1 hslash)
    rw [closingPair?_inside (Ne.symm hc), List.infix_cons_iff, ← ih hcs]
    by_cases hcloses : c = mark ∧ cs.head? = some mark ∧ (cs.drop 1).head? ≠ some mark
    · rw [if_pos hcloses]
      obtain ⟨rfl, hhead, -⟩ := hcloses
      obtain ⟨rest, rfl⟩ := List.head?_eq_some_iff.1 hhead
      exact iff_of_true rfl (.inl (List.prefix_append [c, c] rest))
    · rw [if_neg hcloses, Option.isSome_map, iff_or_self, ih hcs]
      -- the two marks are followed by a third, so the last two of them stand further on
      intro hpair
      obtain ⟨rfl, hsecond⟩ := List.cons_prefix_cons.1 hpair
      obtain ⟨rest, rfl⟩ := hsecond
      have hthird : rest.head? = some mark := by
        by_contra hother
        exact hcloses ⟨rfl, rfl, hother⟩
      obtain ⟨rest, rfl⟩ := List.head?_eq_some_iff.1 hthird
      exact (List.prefix_append [mark, mark] rest).isInfix

/-- **The closing underscore** of emphasis in a word is the last of an odd number at its end. -/
lemma closingMark?_isSome {mark : Char} (hmark : mark = '_') {atStart : Bool}
    (hword : IsWordText cs) : (closingMark? mark atStart cs).isSome = true ↔
      endMarks cs % 2 = 1 ∧ ¬ (atStart = true ∧ StartsSingle cs) := by
  fun_induction closingMark? mark atStart cs with
  | case1 => exact iff_of_false (by simp) (fun h => absurd h.1 (by decide))
  | case2 => exact absurd List.mem_cons_self (hword.not_mem (by decide))
  | case3 => exact absurd List.mem_cons_self (hword.not_mem (by decide))
  | case4 atStart c cs _ hc ih =>
    have hother : c ≠ '_' := hmark ▸ hc
    have hrest : IsWordText cs := hword.of_subset (List.subset_cons_self c cs)
    simp [ih hrest, endMarks_cons_of_ne hother, StartsSingle, hother]
  | case5 c _ hc =>
    obtain rfl : c = '_' := hmark ▸ not_not.1 hc
    exact iff_of_false (by simp) fun h => h.2 ⟨rfl, rfl, by simp⟩
  | case6 atStart c _ hc hinside =>
    obtain rfl : c = '_' := hmark ▸ not_not.1 hc
    exact iff_of_true rfl ⟨endMarks_replicate 1 ▸ rfl, fun h => hinside h.1⟩
  | case7 atStart c _ hc after ih =>
    obtain rfl : c = '_' := hmark ▸ not_not.1 hc
    subst hmark
    have hrest : IsWordText after := hword.of_subset (by simp)
    simp [ih hrest, endMarks_pair, StartsSingle]
  | case8 c _ hc d after hd =>
    obtain rfl : c = '_' := hmark ▸ not_not.1 hc
    exact iff_of_false (by simp) fun h => h.2 ⟨rfl, rfl, by simpa [hmark] using hd⟩
  | case9 atStart c _ hc d after hd hinside hinner ih =>
    have hother : d ≠ '_' := hmark ▸ hd
    have hends : endMarks (c :: d :: after) = endMarks (d :: after) := by
      rw [endMarks_cons_of_ne hother]
      exact endMarks_append_cons [c] hother after
    have hrest : IsWordText (d :: after) := hword.of_subset (List.subset_cons_self c _)
    simp [ih hrest, hends, hinside]
  | case10 atStart c _ hc d after hd hinside hinner =>
    have hother : d ≠ '_' := hmark ▸ hd
    exact absurd ⟨hmark, (hword d (by simp)).resolve_right hother⟩ hinner

end Closing

/-- Emphasis or strong emphasis with underscores opens at the start of a text. -/
def SpanAt (cs : Text) : Prop :=
  (betweenPairs? '_' cs).isSome = true ∨ (betweenMarks? cs).isSome = true

section SpanAt

variable {cs : Text}

lemma IsWordText.head_any_isSpace (h : IsWordText cs) : cs.head?.any isSpace = false := by
  rw [Option.any_eq_false]
  exact fun c hc => by simp [h.isSpace_eq_false (List.mem_of_mem_head? hc)]

lemma IsWordText.last_any_isSpace (h : IsWordText cs) (n : Nat) :
    (cs.take n).getLast?.any isSpace = false := by
  rw [Option.any_eq_false]
  exact fun c hc => by
    simp [h.isSpace_eq_false (List.mem_of_mem_take (List.mem_of_getLast? hc))]

lemma closingPair?_start_isSome (hslash : '\\' ∉ cs) :
    (closingPair? '_' true cs).isSome = true ↔
      ∃ c after, cs = c :: after ∧ ['_', '_'] <:+: after := by
  cases cs with
  | nil => simp [closingPair?]
  | cons c cs =>
    obtain ⟨hc, hcs⟩ := not_or.1 (List.mem_cons.not.1 hslash)
    rw [closingPair?_start (Ne.symm hc), Option.isSome_map, closingPair?_isSome hcs]
    simp

/-- Strong emphasis in a word needs two underscores behind the first character of its content. -/
lemma betweenPairs?_isSome (hword : IsWordText cs) : (betweenPairs? '_' cs).isSome = true ↔
    ∃ c after, cs = '_' :: '_' :: c :: after ∧ ['_', '_'] <:+: after := by
  by_cases hopens : ['_', '_'] <+: cs
  · obtain ⟨content, rfl⟩ := hopens
    have hcontent : IsWordText content := hword.of_subset (by simp)
    have hclosing := closingPair?_start_isSome (hcontent.not_mem (by decide))
    simp only [List.cons_append, List.nil_append, betweenPairs?, hcontent.head_any_isSpace,
      List.cons.injEq, true_and, Bool.false_eq_true, not_false_eq_true, and_self, if_true]
    rw [← hclosing]
    cases closingPair? '_' true content with
    | none => rfl
    | some n => simp [hcontent.last_any_isSpace]
  · rw [betweenPairs?_eq_none hopens]
    refine iff_of_false (by simp) ?_
    rintro ⟨c, after, rfl, -⟩
    exact hopens (List.prefix_append _ (c :: after))

/-- Emphasis in a word needs an odd number of underscores at the end of the word. -/
lemma betweenMarks?_isSome (hword : IsWordText ('_' :: cs)) :
    (betweenMarks? ('_' :: cs)).isSome = true ↔ endMarks cs % 2 = 1 ∧ ¬ StartsSingle cs := by
  have hcs : IsWordText cs := hword.of_subset (List.subset_cons_self _ cs)
  have hclosing : (closingMark? '_' true cs).isSome = true ↔
      endMarks cs % 2 = 1 ∧ ¬ (true = true ∧ StartsSingle cs) := closingMark?_isSome rfl hcs
  simp only [betweenMarks?, hcs.head_any_isSpace, or_true, Bool.false_eq_true, not_false_eq_true,
    and_self, if_true, true_and] at hclosing ⊢
  rw [← hclosing]
  cases closingMark? '_' true cs with
  | none => rfl
  | some n => simp [hcs.last_any_isSpace]

end SpanAt

/-! ## The words in which a span opens -/

/-- The words in which a span opens behind an underscore. -/
inductive OpensSpan (w : Text) : Prop
  /-- Strong emphasis opens behind the first of three underscores, and its content has a first
  character and two underscores behind it. -/
  | strong (c : Char) (after : Text) : '_' :: '_' :: '_' :: c :: after <:+ w →
      ['_', '_'] <:+: after → OpensSpan w
  /-- Emphasis opens in front of a letter or number, if an odd number of underscores ends the
  word. -/
  | em (c : Char) (after : Text) : c ≠ '_' → '_' :: '_' :: c :: after <:+ w →
      endMarks w % 2 = 1 → OpensSpan w
  /-- Emphasis opens around underscores alone, and takes the last four of five. -/
  | marks : List.replicate 5 '_' <:+ w → OpensSpan w

section OpensSpan

variable {v w : Text}

lemma IsWordText.behind (hword : IsWordText w) (hv : '_' :: '_' :: v <:+ w) :
    IsWordText ('_' :: v) :=
  hword.of_subset fun _ hc => hv.subset (List.mem_cons_of_mem _ hc)

/-- In these words a span opens behind an underscore. -/
lemma OpensSpan.exists_spanAt (h : OpensSpan w) (hword : IsWordText w) :
    ∃ v, '_' :: '_' :: v <:+ w ∧ SpanAt ('_' :: v) := by
  cases h with
  | strong c after hsuffix hpair =>
    have hbehind : IsWordText ('_' :: '_' :: c :: after) := hword.behind hsuffix
    exact ⟨_, hsuffix, .inl ((betweenPairs?_isSome hbehind).2 ⟨c, after, rfl, hpair⟩)⟩
  | em c after hc hsuffix hodd =>
    have hletter : c :: after <:+ w := (List.suffix_append ['_', '_'] _).trans hsuffix
    have hends : endMarks (c :: after) = endMarks w := by
      rw [endMarks_cons_of_ne hc, endMarks_of_suffix hc hletter]
    exact ⟨c :: after, hsuffix, .inr ((betweenMarks?_isSome (hword.behind hsuffix)).2
      ⟨hends ▸ hodd, by simp [StartsSingle, hc]⟩)⟩
  | marks hsuffix =>
    exact ⟨List.replicate 3 '_', hsuffix, .inr ((betweenMarks?_isSome (hword.behind hsuffix)).2
      ⟨by rw [endMarks_replicate], by simp [StartsSingle]⟩)⟩

/-- Where emphasis opens behind an underscore, the word is one of these. -/
lemma opensSpan_of_betweenMarks? (hword : IsWordText w) (hsuffix : '_' :: '_' :: v <:+ w)
    (hmarks : (betweenMarks? ('_' :: v)).isSome = true) : OpensSpan w := by
  obtain ⟨hodd, hsingle⟩ := (betweenMarks?_isSome (hword.behind hsuffix)).1 hmarks
  rcases exists_marks v with ⟨n, rfl⟩ | ⟨n, c, after, hc, rfl⟩
  · rw [endMarks_replicate] at hodd
    have hn : 3 ≤ n := by
      by_contra hshort
      obtain rfl : n = 1 := by omega
      exact hsingle ⟨rfl, by simp⟩
    have hfive : List.replicate 5 '_' <:+ List.replicate (n + 2) '_' :=
      ⟨List.replicate (n - 3) '_', by rw [← List.replicate_add]; congr 1; omega⟩
    exact .marks (hfive.trans hsuffix)
  · have hlast : '_' :: '_' :: (List.replicate n '_' ++ c :: after) =
        List.replicate n '_' ++ '_' :: '_' :: c :: after :=
      calc '_' :: '_' :: (List.replicate n '_' ++ c :: after)
        _ = List.replicate (n + 2) '_' ++ c :: after := rfl
        _ = List.replicate n '_' ++ '_' :: '_' :: c :: after := by
          rw [List.replicate_add, List.append_assoc]
          rfl
    rw [hlast] at hsuffix
    have hpair : '_' :: '_' :: c :: after <:+ w := (List.suffix_append _ _).trans hsuffix
    have hletter : c :: after <:+ w := (List.suffix_append ['_', '_'] _).trans hpair
    rw [endMarks_append_cons _ hc, ← endMarks_of_suffix hc hletter] at hodd
    exact .em c after hc hpair hodd

/-- **A span opens behind an underscore** in these words and no others. -/
lemma opensSpan_iff (hword : IsWordText w) :
    OpensSpan w ↔ ∃ v, '_' :: '_' :: v <:+ w ∧ SpanAt ('_' :: v) := by
  refine ⟨fun h => h.exists_spanAt hword, ?_⟩
  rintro ⟨v, hsuffix, hpairs | hmarks⟩
  · obtain ⟨c, after, hv, hpair⟩ := (betweenPairs?_isSome (hword.behind hsuffix)).1 hpairs
    obtain rfl : v = '_' :: c :: after := (List.cons.inj hv).2
    exact .strong c after hsuffix hpair
  · exact opensSpan_of_betweenMarks? hword hsuffix hmarks

end OpensSpan

end Docmark
