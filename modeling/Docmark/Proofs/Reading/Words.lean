import Mathlib
import Docmark.Proofs.Reading.PlainText
import Docmark.Proofs.Reading.Total
import Docmark.Proofs.Reading.Underscores

/-!
# Words with underscores

Behind a letter or a number an underscore belongs to a word, and plain text goes on.  Behind another
underscore it does not, so inside a run of underscores plain text ends and emphasis is tried.  What
is found there depends on the underscores of the whole word, and in most words it is nothing.

## Main results

* `nextInline_plain`, `nextInline_span` — one step takes a word up to the second of two underscores,
  unless a span opens.
* `words_stay_plain` — a word is read as plain text if and only if no span opens in it.
* `word_opens_span` — a word in which emphasis opens.
-/

namespace Docmark

/-! ## One step -/

/-- What plain text takes of a word: it holds no two underscores in a row, and ends behind the first
of two. -/
structure IsPiece (piece rest : Text) : Prop where
  pairs : ¬ ['_', '_'] <:+: piece
  border : rest = [] ∨ (piece.getLast? = some '_' ∧ rest.head? = some '_')

/-- In a word plain text stops between two underscores and nowhere else. -/
lemma stopsText_word {bare : Bool} {previous c : Char} {cs : Text}
    (hword : IsWordText (previous :: c :: cs)) :
    stopsText bare previous (c :: cs) = true ↔ previous = '_' ∧ c = '_' := by
  have hne {d : Char} (hd : (!isAlphanumeric d && d != '_') = true) : d ∉ c :: cs :=
    (hword.of_subset (List.subset_cons_self previous _)).not_mem hd
  have hstop : "\\<![*\x60~".toList.contains c = false := by
    have hmarks : "\\<![*\x60~".toList.all (fun d => !isAlphanumeric d && d != '_') = true := by
      decide
    rw [List.contains_eq_mem, decide_eq_false_iff_not]
    exact fun hc => hne (List.all_eq_true.1 hmarks c hc) List.mem_cons_self
  simp only [stopsText, hstop, Bool.false_eq_true, if_false]
  by_cases hc : c = '_'
  · simp only [hc, true_or, if_true, and_true, Bool.not_eq_true']
    rcases hword previous List.mem_cons_self with halnum | rfl
    · refine iff_of_false (by simp [halnum]) ?_
      rintro rfl
      cases halnum
    · exact iff_of_true (by decide) rfl
  · have hat : c ≠ '@' := fun h => hne (d := '@') (by decide) (by simp [h])
    have hblank : c ≠ ' ' := fun h => hne (d := ' ') (by decide) (by simp [h])
    have hscheme : bareSchemes.any (·.isPrefixOf (c :: cs)) = false := by
      rw [List.any_eq_false]
      intro p hp hbegins
      have hpunctuated : ∀ p ∈ bareSchemes, ':' ∈ p ∨ '.' ∈ p := by decide
      have hsub := (List.isPrefixOf_iff_prefix.1 hbegins).subset
      rcases hpunctuated p hp with hcolon | hdot
      · exact hne (by decide) (hsub hcolon)
      · exact hne (by decide) (hsub hdot)
    rw [if_neg (by simp [hc, hat]), if_neg hblank, hscheme, ite_self]
    exact iff_of_false Bool.false_ne_true fun h => hc h.2

/-- Plain text in a word goes on up to the second of two underscores. -/
lemma exists_plainLength_word (bare : Bool) {first : Char} {cs : Text}
    (hword : IsWordText (first :: cs)) : ∃ s₁ s₂, cs = s₁ ++ s₂ ∧ IsPiece (first :: s₁) s₂ ∧
      plainLength bare first cs = s₁.length := by
  induction cs generalizing first with
  | nil => exact ⟨[], [], rfl, ⟨by simp [List.infix_cons_iff], .inl rfl⟩, rfl⟩
  | cons c cs ih =>
    by_cases hstops : stopsText bare first (c :: cs) = true
    · obtain ⟨rfl, rfl⟩ := (stopsText_word hword).1 hstops
      exact ⟨[], _, rfl, ⟨by simp [List.infix_cons_iff], .inr ⟨rfl, rfl⟩⟩, if_pos hstops⟩
    · obtain ⟨s₁, s₂, rfl, hpiece, hlength⟩ := ih (hword.of_subset (List.subset_cons_self first _))
      refine ⟨c :: s₁, s₂, rfl, ⟨?_, ?_⟩, ?_⟩
      · rw [List.infix_cons_iff, not_or]
        refine ⟨fun hpair => ?_, hpiece.pairs⟩
        obtain ⟨hfirst, hsecond⟩ := List.cons_prefix_cons.1 hpair
        exact hstops ((stopsText_word hword).2
          ⟨hfirst.symm, (List.cons_prefix_cons.1 hsecond).1.symm⟩)
      · rw [List.getLast?_cons_cons]
        exact hpiece.border
      · rw [plainLength, if_neg hstops, hlength, List.length_cons]

/-- No construct but emphasis and plain text begins in a word. -/
lemma InlineConstruct.recognize_eq_none_of_word {c : InlineConstruct} {cur : Cursor}
    (hword : IsWordText cur.rest) (hc : c ∉ [strong, em]) (htext : ∀ b, c ≠ .text b)
    (defs : Definitions) (nest : Option InlineReader) (scope : Scope) :
    c.recognize defs nest scope cur = .ok none := by
  have hopenings : ∀ p ∈ c.openings, p.any (fun d => !isAlphanumeric d && d != '_') = true := by
    cases c with
    | strong => exact absurd (List.mem_cons_self) hc
    | em => exact absurd (List.mem_cons_of_mem _ (List.mem_singleton_self _)) hc
    | text b => exact absurd rfl (htext b)
    | _ => decide
  refine recognize_eq_none_of_openings (fun p hp hbegins => ?_) defs nest scope
  obtain ⟨d, hd, hother⟩ := List.any_eq_true.1 (hopenings p hp)
  exact hword.not_mem hother (hbegins.subset hd)

lemma framed_without_reader (frame : Inline.Frame) (size : Nat) (content : Option Text)
    (scope : Scope) (cur : Cursor) : framed frame size content none scope cur = .ok none := by
  cases content <;> rfl

lemma framed_some {read : InlineReader} (hread : read.IsTotal) (frame : Inline.Frame) (size : Nat)
    (content : Text) (scope : Scope) (cur : Cursor) : ∃ children,
      framed frame size (some content) (some read) scope cur =
        .ok (some ⟨content.length + 2 * size, .node frame children⟩) := by
  obtain ⟨children, hchildren⟩ := hread scope.descend content (cur.pointAt size)
  exact ⟨children, by rw [framed, hchildren]⟩

lemma betweenPairs?_star_eq_none {cs : Text} (hword : IsWordText cs) :
    betweenPairs? '*' cs = none :=
  betweenPairs?_eq_none fun hopening =>
    hword.not_mem (c := '*') (by decide) (hopening.subset List.mem_cons_self)

/-- Emphasis does not begin in a word where no span opens, or where none may be read. -/
lemma InlineConstruct.recognize_emphasis_eq_none {c : InlineConstruct} {cur : Cursor}
    {nest : Option InlineReader} (hword : IsWordText cur.rest)
    (hspan : nest = none ∨ ¬ SpanAt cur.rest) (hc : c ∈ [strong, em]) (defs : Definitions)
    (scope : Scope) : c.recognize defs nest scope cur = .ok none := by
  simp only [List.mem_cons, List.not_mem_nil, or_false] at hc
  rcases hspan with rfl | hspan
  · rcases hc with rfl | rfl
    · rw [recognize]
      exact framed_without_reader _ _ _ scope cur
    · rw [recognize]
      exact framed_without_reader _ _ _ scope cur
  · rw [SpanAt, not_or, Option.not_isSome_iff_eq_none, Option.not_isSome_iff_eq_none] at hspan
    rcases hc with rfl | rfl
    · rw [recognize, betweenPairs?_star_eq_none hword, hspan.1]
      exact framed_none _ _ nest scope cur
    · rw [recognize, hspan.2]
      exact framed_none _ _ nest scope cur

/-- Every dialect tries strong emphasis and then emphasis. -/
lemma Flavor.rules_emphasis (f : Flavor) : ∃ before after : List InlineConstruct,
    f.rules.inline = (before ++ InlineConstruct.strong :: .em :: after).map .standard ∧
      ∀ c ∈ before, c ∉ [InlineConstruct.strong, .em] ∧ ∀ b, c ≠ .text b := by
  cases f with
  | markdown =>
    exact ⟨[.escape, .autoLink, .tag, .link, .refLink, .shortLink], _, rfl, by simp⟩
  | gfm =>
    exact ⟨[.escape, .autoLink, .bareLink, .tag, .link, .refLink, .shortLink], _, rfl, by simp⟩
  | dfm =>
    exact ⟨[.escape, .directive, .angledXref, .autoLink, .bareLink, .tag, .link, .refLink,
      .shortLink], _, rfl, by simp⟩

section Step

variable (f : Flavor) (defs : Definitions) (scope : Scope) {cur : Cursor}

/-- **Where no span opens** in a word, plain text takes a piece of it. -/
lemma nextInline_plain {nest : Option InlineReader} (hne : cur.rest ≠ [])
    (hword : IsWordText cur.rest) (hspan : nest = none ∨ ¬ SpanAt cur.rest) :
    ∃ piece rest m, cur.rest = piece ++ rest ∧ piece ≠ [] ∧ IsPiece piece rest ∧
      nextInline f.rules defs nest scope cur = .ok (some m) ∧ m.length = piece.length ∧
      m.token.kind = .text ∧ m.token.visible = piece := by
  obtain ⟨before, bare, hrules, hothers, -⟩ := f.rules_text
  obtain ⟨first, cs, hcur⟩ := List.exists_cons_of_ne_nil hne
  have hdeclines : ∀ d ∈ before, d.recognize defs nest scope cur = .ok none := by
    intro d hd
    by_cases hemphasis : d ∈ [InlineConstruct.strong, .em]
    · exact InlineConstruct.recognize_emphasis_eq_none hword hspan hemphasis defs scope
    · exact InlineConstruct.recognize_eq_none_of_word hword hemphasis (hothers d hd) defs nest scope
  obtain ⟨s₁, s₂, hsplit, hpiece, hlength⟩ := exists_plainLength_word bare (hcur ▸ hword)
  rw [hsplit] at hcur hlength
  have htext := InlineConstruct.recognize_text hcur hlength defs nest scope
  exact ⟨first :: s₁, s₂, _, hcur, List.cons_ne_nil _ _, hpiece,
    nextInline_of_declined hrules hdeclines htext, rfl, rfl, rfl⟩

/-- **Where a span opens** in a word and may be read, it is the next token. -/
lemma nextInline_span {read : InlineReader} (hread : read.IsTotal) (hword : IsWordText cur.rest)
    (hspan : SpanAt cur.rest) : ∃ m, nextInline f.rules defs (some read) scope cur = .ok (some m) ∧
      0 < m.length ∧ m.token.kind ≠ .text := by
  obtain ⟨before, after, hrules, hbefore⟩ := f.rules_emphasis
  have hdeclines : ∀ d ∈ before, d.recognize defs (some read) scope cur = .ok none := fun d hd =>
    InlineConstruct.recognize_eq_none_of_word hword (hbefore d hd).1 (hbefore d hd).2 defs _ scope
  have hstar : betweenPairs? '*' cur.rest = none := betweenPairs?_star_eq_none hword
  cases hpairs : betweenPairs? '_' cur.rest with
  | some content =>
    obtain ⟨children, hframed⟩ := framed_some hread .strong 2 content scope cur
    have hstrong : InlineConstruct.strong.recognize defs (some read) scope cur =
        .ok (some ⟨content.length + 2 * 2, .node .strong children⟩) := by
      rw [InlineConstruct.recognize, hstar, hpairs]
      exact hframed
    have hkind : InlineTag.strong ≠ .text := by decide
    exact ⟨_, nextInline_of_declined hrules hdeclines hstrong, by simp, hkind⟩
  | none =>
    obtain ⟨content, hmarks⟩ := Option.isSome_iff_exists.1 (hspan.resolve_left (by simp [hpairs]))
    obtain ⟨children, hframed⟩ := framed_some hread .em 1 content scope cur
    have hem : InlineConstruct.em.recognize defs (some read) scope cur =
        .ok (some ⟨content.length + 2 * 1, .node .em children⟩) := by
      rw [InlineConstruct.recognize, hmarks]
      exact hframed
    have hrules' : f.rules.inline =
        ((before ++ [InlineConstruct.strong]) ++ .em :: after).map .standard := by
      rw [hrules, List.append_assoc]
      rfl
    have hkind : InlineTag.em ≠ .text := by decide
    refine ⟨_, nextInline_of_declined hrules' (fun d hd => ?_) hem, by simp, hkind⟩
    rcases List.mem_append.1 hd with hd | hd
    · exact hdeclines d hd
    · rw [List.mem_singleton.1 hd, InlineConstruct.recognize, hstar, hpairs]
      rfl

/-! ## A run of steps -/

/-- No span opens in a word, neither at its start nor behind an underscore. -/
def IsClear (cs : Text) : Prop :=
  ¬ SpanAt cs ∧ ∀ v, '_' :: '_' :: v <:+ cs → ¬ SpanAt ('_' :: v)

lemma isClear_nil : IsClear [] :=
  ⟨by simp [SpanAt, betweenPairs?, betweenMarks?],
    fun v hv => absurd (List.suffix_nil.1 hv) (List.cons_ne_nil '_' ('_' :: v))⟩

/-- A word in front of which no span opens is clear if what follows its first piece is. -/
lemma isClear_append {piece rest : Text} (hpiece : IsPiece piece rest)
    (hspan : ¬ SpanAt (piece ++ rest)) : IsClear (piece ++ rest) ↔ IsClear rest := by
  constructor
  · rintro ⟨-, hinside⟩
    rcases hpiece.border with rfl | ⟨hlast, hhead⟩
    · exact isClear_nil
    · obtain ⟨init, rfl⟩ := List.getLast?_eq_some_iff.1 hlast
      obtain ⟨after, rfl⟩ := List.head?_eq_some_iff.1 hhead
      exact ⟨hinside after ⟨init, by simp⟩,
        fun v hv => hinside v (hv.trans (List.suffix_append _ _))⟩
  · rintro ⟨hrest, hinside⟩
    refine ⟨hspan, fun v hv => ?_⟩
    obtain ⟨before, hbefore⟩ := hv
    -- the two underscores are both in the rest, or stand around the border
    rcases List.append_eq_append_iff.1 hbefore with ⟨marks, hmarks, hsplit⟩ | ⟨marks, -, hsplit⟩
    · cases marks with
      | nil => exact hinside v ⟨[], hsplit⟩
      | cons c marks =>
        obtain ⟨rfl, hbehind⟩ := List.cons.inj hsplit
        cases marks with
        | nil => exact (show '_' :: v = rest from hbehind) ▸ hrest
        | cons d marks =>
          obtain ⟨rfl, -⟩ := List.cons.inj hbehind
          exact absurd (hmarks ▸ ⟨before, marks, by simp⟩) hpiece.pairs
    · exact hinside v ⟨marks, hsplit.symm⟩

/-- **A run of steps** makes plain text alone just when no span opens or none may be read, and then
shows the word. -/
lemma readAll_word {nest : Option InlineReader} (hnest : ∀ read, nest = some read → read.IsTotal)
    (hword : IsWordText cur.rest) :
    ((∀ t ∈ (readAll (nextInline f.rules defs nest scope) cur).tokens, t.kind = .text) ↔
      nest = none ∨ IsClear cur.rest) ∧
    ((∀ t ∈ (readAll (nextInline f.rules defs nest scope) cur).tokens, t.kind = .text) →
      Inline.plainText (readAll (nextInline f.rules defs nest scope) cur).tokens = cur.rest) := by
  induction hn : cur.rest.length using Nat.strong_induction_on generalizing cur with
  | _ n ih =>
    by_cases hne : cur.rest = []
    · rw [readAll_nil hne, hne]
      exact ⟨iff_of_true (by simp) (.inr isClear_nil), fun _ => rfl⟩
    by_cases hspan : nest = none ∨ ¬ SpanAt cur.rest
    · obtain ⟨piece, rest, m, hsplit, hpos, hpiece, hm, hlength, hkind, hvisible⟩ :=
        nextInline_plain f defs scope hne hword hspan
      have hlonger : 0 < m.length := hlength ▸ List.length_pos_iff.2 hpos
      have hdrop : (cur.drop m.length).rest = rest := by
        simp only [Cursor.drop, hsplit, hlength, List.drop_left]
      have hclear : nest = none ∨ IsClear rest ↔ nest = none ∨ IsClear cur.rest := by
        rcases hspan with hnone | hspan
        · exact iff_of_true (.inl hnone) (.inl hnone)
        · rw [hsplit] at hspan ⊢
          rw [isClear_append hpiece hspan]
      have hbehind : IsWordText (cur.drop m.length).rest :=
        hdrop ▸ hword.of_subset (by simp [hsplit])
      have hrest := ih rest.length (by rw [← hn, hsplit, List.length_append]; omega) hbehind
        (by rw [hdrop])
      rw [hdrop] at hrest
      rw [readAll_cons hne hm hlonger, List.forall_mem_cons, ← hclear, Inline.plainText, hvisible]
      refine ⟨by simp [hkind, hrest.1], fun hall => ?_⟩
      rw [hrest.2 hall.2, hsplit]
    · rw [not_or, not_not] at hspan
      obtain ⟨read, rfl⟩ := Option.ne_none_iff_exists'.1 hspan.1
      obtain ⟨m, hm, hlonger, hkind⟩ :=
        nextInline_span f defs scope (hnest read rfl) hword hspan.2
      rw [readAll_cons hne hm hlonger, List.forall_mem_cons]
      exact ⟨iff_of_false (fun hall => hkind hall.1) (by simp [IsClear, hspan.2]),
        fun hall => absurd hall.1 hkind⟩

end Step

/-- At a letter or number no span opens. -/
lemma not_spanAt_of_head {w : Text} (hfirst : w.head?.any isAlphanumeric = true) : ¬ SpanAt w := by
  have hne {mark : Char} (hmark : isAlphanumeric mark = false) {p : Text} : ¬ mark :: p <+: w := by
    rintro ⟨after, rfl⟩
    simp [hmark] at hfirst
  rw [SpanAt, betweenPairs?_eq_none (hne (by decide)),
    betweenMarks?_eq_none (hne (by decide)) (hne (by decide))]
  simp

/-- **Words stay plain but for runs of underscores.**  In each dialect, wherever inlines are read, a
word of letters, numbers and underscores that starts with a letter or number is read as plain text
alone if and only if it is none of the words in which a span opens, or no span may be opened any
more; and then the text that is read is the word. -/
theorem words_stay_plain (f : Flavor) (defs : Definitions) (scope : Scope) (origin : Point)
    {w : Text} (hfirst : w.head?.any isAlphanumeric = true)
    (hword : ∀ c ∈ w, isAlphanumeric c = true ∨ c = '_') :
    ∃ ts, readInlines f.rules defs scope w origin = .ok ts ∧
      ((∀ t ∈ ts, t.kind = .text) ↔ (scope.canNest = true → ¬ OpensSpan w)) ∧
      ((∀ t ∈ ts, t.kind = .text) → Inline.plainText ts = w) := by
  have htotal : (readInlines f.rules defs).IsTotal :=
    readInlines_isTotal f.rules_isStandard f.rules_hasText defs
  have hclear : IsClear w ↔ ¬ OpensSpan w := by
    rw [opensSpan_iff hword, IsClear]
    simp [not_spanAt_of_head hfirst]
  have hnest : ∀ read, (if scope.canNest then some (readInlines f.rules defs) else none) =
      some read → read.IsTotal := by
    intro read hread
    split at hread
    · exact Option.some.inj hread ▸ htotal
    · cases hread
  have hrest : (Cursor.ofText w origin).rest = w := rfl
  obtain ⟨hplain, htext⟩ := readAll_word f defs scope.toInline hnest (hrest ▸ hword)
  refine ⟨_, readInlines_eq_ok f.rules_isStandard f.rules_hasText defs scope w origin,
    hplain.trans ?_, htext⟩
  rw [hrest, hclear]
  cases scope.canNest with
  | true => simp
  | false => simp

/-- Two pairs of underscores inside a word. -/
theorem words_stay_plain_pairs :
    "a__b__2".toList.head?.any isAlphanumeric = true ∧
    (∀ c ∈ "a__b__2".toList, isAlphanumeric c = true ∨ c = '_') ∧
    ∃ ts, readInlines Flavor.dfm.rules [] Scope.document "a__b__2".toList Point.start = .ok ts ∧
      (∀ t ∈ ts, t.kind = .text) ∧ Inline.plainText ts = "a__b__2".toList := by
  have hword : ∀ c ∈ "a__b__2".toList, isAlphanumeric c = true ∨ c = '_' := by
    simp [isAlphanumeric]
  have hspan : ¬ OpensSpan "a__b__2".toList := by
    intro h
    cases h with
    | strong c after hsuffix => simp [List.suffix_cons_iff] at hsuffix
    | em c after hc hsuffix hodd => exact absurd hodd (by decide)
    | marks hsuffix => exact absurd hsuffix (by decide)
  obtain ⟨ts, hts, hplain, htext⟩ :=
    words_stay_plain .dfm [] Scope.document Point.start (w := "a__b__2".toList) (by decide) hword
  have hall := hplain.2 fun _ => hspan
  exact ⟨by decide, hword, ts, hts, hall, htext hall⟩

/-- **A word in which emphasis opens**: behind the first of two underscores, around the letter in
front of the last one. -/
theorem word_opens_span :
    (∀ c ∈ "a__b_".toList, isAlphanumeric c = true ∨ c = '_') ∧
    (readInlines Flavor.markdown.rules [] Scope.document "a__b_".toList Point.start).toOption.map
      (List.map Inline.kind) = some [.text, .em] := by
  constructor
  · simp [isAlphanumeric]
  · decide +kernel

end Docmark
