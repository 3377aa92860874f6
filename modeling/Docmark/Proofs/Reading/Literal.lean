import Mathlib
import Docmark.Proofs.Reading.PlainText
import Docmark.Proofs.Reading.Total

/-!
# Escaped text is literal

Every construct begins with a mark that a backslash makes literal, with blanks in front of a line
feed, or with the scheme of a bare address.  So a line with a backslash in front of each such mark
is read as the line itself: at a backslash the next two characters are an escape, and between two
escapes plain text runs up to the next backslash at the most.  Of the bare addresses only those with
`http` have to be kept out, since the dot behind `www` is escaped.

## Main results

* `nextInline_escaped` — one step takes some characters of the line, and leaves the rest escaped.
* `escaped_reads_literally` — the tokens are escapes and plain text, and what they show is the line.
-/

namespace Docmark

/-! ## Escaped texts -/

/-- The marks that authors escape. -/
def punctuation : Text := "\\\x60*\x7b\x7d[]()#+-.!_<>~|@\"'".toList

/-- A text with a backslash in front of each mark. -/
def escaped (s : Text) : Text :=
  s.flatMap fun c => if c ∈ punctuation then ['\\', c] else [c]

section Escaped

variable {c : Char} {p s : Text}

lemma escaped_cons_of_mem (hc : c ∈ punctuation) : escaped (c :: s) = '\\' :: c :: escaped s := by
  rw [escaped, List.flatMap_cons, if_pos hc]
  rfl

lemma escaped_cons_of_not_mem (hc : c ∉ punctuation) : escaped (c :: s) = c :: escaped s := by
  rw [escaped, List.flatMap_cons, if_neg hc]
  rfl

lemma escaped_append (s₁ s₂ : Text) : escaped (s₁ ++ s₂) = escaped s₁ ++ escaped s₂ :=
  List.flatMap_append

lemma escaped_eq_self (h : ∀ c ∈ s, c ∉ punctuation) : escaped s = s := by
  induction s with
  | nil => rfl
  | cons c s ih =>
    obtain ⟨hc, hs⟩ := List.forall_mem_cons.1 h
    rw [escaped_cons_of_not_mem hc, ih hs]

lemma length_le_escaped (s : Text) : s.length ≤ (escaped s).length := by
  induction s with
  | nil => exact Nat.le_refl 0
  | cons c s ih =>
    by_cases hc : c ∈ punctuation
    · simp only [escaped_cons_of_mem hc, List.length_cons]
      omega
    · simp only [escaped_cons_of_not_mem hc, List.length_cons]
      omega

lemma not_mem_escaped (h : c ∉ s) (hslash : c ≠ '\\') : c ∉ escaped s := by
  simp only [escaped, List.mem_flatMap, not_exists, not_and]
  intro d hd hc
  split at hc
  · simp only [List.mem_pair] at hc
    exact hc.elim hslash fun hcd => h (hcd ▸ hd)
  · exact h (List.mem_singleton.1 hc ▸ hd)

/-- A text without a backslash at the start of an escaped one is at the start of the text itself,
and holds no mark. -/
lemma prefix_escaped (hp : '\\' ∉ p) (h : p <+: escaped s) :
    p <+: s ∧ ∀ c ∈ p, c ∉ punctuation := by
  induction p generalizing s with
  | nil => exact ⟨List.nil_prefix, by simp⟩
  | cons d p ih =>
    obtain ⟨hd, hp⟩ := not_or.1 (List.mem_cons.not.1 hp)
    cases s with
    | nil => exact absurd (List.prefix_nil.1 h) (List.cons_ne_nil d p)
    | cons c s =>
      by_cases hc : c ∈ punctuation
      · rw [escaped_cons_of_mem hc, List.cons_prefix_cons] at h
        exact absurd h.1.symm hd
      · rw [escaped_cons_of_not_mem hc, List.cons_prefix_cons] at h
        obtain ⟨rfl, hrest⟩ := h
        obtain ⟨hinitial, hmarks⟩ := ih hp hrest
        exact ⟨List.cons_prefix_cons.2 ⟨rfl, hinitial⟩, List.forall_mem_cons.2 ⟨hc, hmarks⟩⟩

end Escaped

/-! ## One step -/

/-- A text that escaping makes literal: it is on one line and holds no scheme of an address. -/
structure IsPlainLine (s : Text) : Prop where
  feed : '\n' ∉ s
  http : ¬ "http://".toList <:+: s
  https : ¬ "https://".toList <:+: s

namespace IsPlainLine

lemma suffix {s₁ s₂ : Text} (h : IsPlainLine (s₁ ++ s₂)) : IsPlainLine s₂ where
  feed := fun hfeed => h.feed (List.mem_append_right s₁ hfeed)
  http := fun hscheme => h.http (hscheme.trans (List.suffix_append s₁ s₂).isInfix)
  https := fun hscheme => h.https (hscheme.trans (List.suffix_append s₁ s₂).isInfix)

/-- At a character that is not escaped no construct but plain text begins. -/
lemma nothingBegins {bare : Bool} {c : Char} {s : Text} (h : IsPlainLine (c :: s))
    (hc : c ∉ punctuation) : NothingBegins bare (escaped (c :: s)) := by
  have hfeed : '\n' ∉ escaped (c :: s) := not_mem_escaped h.feed (by decide)
  have hmarks : markChars ⊆ punctuation := by decide
  refine ⟨fun m hm hbegins => ?_, ?_, fun _ p hp hbegins => ?_⟩
  · rw [escaped_cons_of_not_mem hc, List.cons_prefix_cons] at hbegins
    exact hc (hbegins.1 ▸ hmarks hm)
  · rw [escaped_cons_of_not_mem hc] at hfeed ⊢
    refine lineBreak?_eq_none ?_ fun _ hblanks => hfeed (List.mem_of_getElem? hblanks.2)
    rintro rfl
    exact hc (by decide)
  · simp only [bareSchemes, List.mem_cons, List.not_mem_nil, or_false] at hp
    rcases hp with rfl | rfl | rfl
    · exact h.http (prefix_escaped (by decide) hbegins).1.isInfix
    · exact h.https (prefix_escaped (by decide) hbegins).1.isInfix
    · exact (prefix_escaped (by decide) hbegins).2 '.' (by decide) (by decide)

end IsPlainLine

/-- Plain text in an escaped text takes none of the marks. -/
lemma exists_plainLength_escaped (bare : Bool) (previous : Char) (s : Text) :
    ∃ s₁ s₂, s = s₁ ++ s₂ ∧ (∀ c ∈ s₁, c ∉ punctuation) ∧
      plainLength bare previous (escaped s) = s₁.length := by
  induction s generalizing previous with
  | nil => exact ⟨[], [], rfl, by simp, rfl⟩
  | cons c s ih =>
    by_cases hstops : stopsText bare previous (escaped (c :: s)) = true
    · refine ⟨[], c :: s, rfl, by simp, ?_⟩
      cases hcs : escaped (c :: s) with
      | nil => rfl
      | cons d cs => exact if_pos (hcs ▸ hstops)
    · have hc : c ∉ punctuation := by
        intro hc
        rw [escaped_cons_of_mem hc] at hstops
        exact hstops rfl
      obtain ⟨s₁, s₂, rfl, hmarks, hlength⟩ := ih c
      refine ⟨c :: s₁, s₂, rfl, List.forall_mem_cons.2 ⟨hc, hmarks⟩, ?_⟩
      rw [escaped_cons_of_not_mem hc] at hstops ⊢
      rw [plainLength, if_neg hstops, hlength, List.length_cons]

/-- Every dialect tries escapes first. -/
lemma Flavor.rules_escape (f : Flavor) : ∃ after : List InlineConstruct,
    f.rules.inline = ([] ++ InlineConstruct.escape :: after).map .standard := by
  cases f <;> exact ⟨_, rfl⟩

section Step

variable (f : Flavor) (defs : Definitions) (nest : Option InlineReader) (scope : Scope)
  {cur : Cursor} {s : Text}

/-- **One step** takes some characters of the line, shows them, and leaves the others escaped. -/
lemma nextInline_escaped (hs : s ≠ []) (hcur : cur.rest = escaped s) (h : IsPlainLine s) :
    ∃ s₁ s₂ m, s = s₁ ++ s₂ ∧ s₁ ≠ [] ∧ nextInline f.rules defs nest scope cur = .ok (some m) ∧
      m.length = (escaped s₁).length ∧ (m.token.kind = .text ∨ m.token.kind = .escape) ∧
      m.token.visible = s₁ := by
  obtain ⟨c, s, rfl⟩ := List.exists_cons_of_ne_nil hs
  by_cases hc : c ∈ punctuation
  · obtain ⟨after, hrules⟩ := f.rules_escape
    have hescapable : escapable.contains c = true := List.contains_iff_mem.2 hc
    have hescape : InlineConstruct.escape.recognize defs nest scope cur =
        .ok (some ⟨2, .leaf (.escape [c])⟩) := by
      simp only [InlineConstruct.recognize, hcur, escaped_cons_of_mem hc, escape?,
        if_pos hescapable]
      rfl
    refine ⟨[c], s, _, rfl, List.cons_ne_nil c [], nextInline_of_declined hrules (by simp) hescape,
      ?_, .inr rfl, rfl⟩
    rw [escaped_cons_of_mem hc]
    rfl
  · obtain ⟨before, bare, hrules, hothers, hbare⟩ := f.rules_text
    have hnothing : NothingBegins bare cur.rest := hcur ▸ h.nothingBegins hc
    obtain ⟨s₁, s₂, rfl, hmarks, hlength⟩ := exists_plainLength_escaped bare c s
    have hsplit : cur.rest = c :: (s₁ ++ escaped s₂) := by
      rw [hcur, escaped_cons_of_not_mem hc, escaped_append, escaped_eq_self hmarks]
    rw [escaped_append, escaped_eq_self hmarks] at hlength
    have htext := InlineConstruct.recognize_text hsplit hlength defs nest scope
    refine ⟨c :: s₁, s₂, _, rfl, List.cons_ne_nil c s₁, nextInline_of_declined hrules
      (fun d hd => InlineConstruct.recognize_eq_none hnothing defs nest scope (hothers d hd)
        (by rintro rfl; exact hbare hd)) htext, ?_, .inl rfl, rfl⟩
    rw [escaped_eq_self (List.forall_mem_cons.2 ⟨hc, hmarks⟩)]
    rfl

/-- **A run of steps** shows the whole line. -/
lemma readAll_escaped (hcur : cur.rest = escaped s) (h : IsPlainLine s) :
    (∀ t ∈ (readAll (nextInline f.rules defs nest scope) cur).tokens,
      t.kind = .text ∨ t.kind = .escape) ∧
    Inline.plainText (readAll (nextInline f.rules defs nest scope) cur).tokens = s := by
  induction hn : s.length using Nat.strong_induction_on generalizing cur s with
  | _ n ih =>
    by_cases hs : s = []
    · subst hs
      rw [readAll_nil hcur]
      exact ⟨by simp, rfl⟩
    · obtain ⟨s₁, s₂, m, rfl, hs₁, hm, hlength, hkind, hvisible⟩ :=
        nextInline_escaped f defs nest scope hs hcur h
      rw [escaped_append] at hcur
      have hpos : 0 < s₁.length := List.length_pos_iff.2 hs₁
      have hlonger : 0 < m.length := hlength ▸ hpos.trans_le (length_le_escaped s₁)
      have hne : cur.rest ≠ [] := by
        intro hnil
        rw [hnil, eq_comm, List.append_eq_nil_iff] at hcur
        simp [hlength, hcur.1] at hlonger
      have hdrop : (cur.drop m.length).rest = escaped s₂ := by
        simp only [Cursor.drop, hcur, hlength, List.drop_left]
      obtain ⟨hkinds, htext⟩ := ih s₂.length
        (by rw [← hn, List.length_append]; omega) hdrop h.suffix rfl
      rw [readAll_cons hne hm hlonger]
      exact ⟨List.forall_mem_cons.2 ⟨hkind, hkinds⟩, by rw [Inline.plainText, hvisible, htext]⟩

end Step

/-- **Escaped text is literal.**  In each dialect, wherever inlines are read, a text on one line
without `http://` and `https://`, with a backslash in front of every mark, is read as escapes and
plain text alone, and what a reader sees of them is the text. -/
theorem escaped_reads_literally (f : Flavor) (defs : Definitions) (scope : Scope) (origin : Point)
    {s : Text} (hfeed : '\n' ∉ s) (hhttp : ¬ "http://".toList <:+: s)
    (hhttps : ¬ "https://".toList <:+: s) :
    ∃ ts, readInlines f.rules defs scope (escaped s) origin = .ok ts ∧
      (∀ t ∈ ts, t.kind = .text ∨ t.kind = .escape) ∧ Inline.plainText ts = s :=
  ⟨_, readInlines_eq_ok f.rules_isStandard f.rules_hasText defs scope (escaped s) origin,
    readAll_escaped f defs _ _ rfl ⟨hfeed, hhttp, hhttps⟩⟩

/-- An image, a span, two addresses and a backslash. -/
theorem escaped_reads_literally_dfm :
    '\n' ∉ "![a](b) *c* www.d http:/ <e@f> \\".toList ∧
    ¬ "http://".toList <:+: "![a](b) *c* www.d http:/ <e@f> \\".toList ∧
    ¬ "https://".toList <:+: "![a](b) *c* www.d http:/ <e@f> \\".toList ∧
    ∃ ts, readInlines Flavor.dfm.rules [] Scope.document
        "\\!\\[a\\]\\(b\\) \\*c\\* www\\.d http:/ \\<e\\@f\\> \\\\".toList Point.start = .ok ts ∧
      (∀ t ∈ ts, t.kind = .text ∨ t.kind = .escape) ∧
      Inline.plainText ts = "![a](b) *c* www.d http:/ <e@f> \\".toList := by
  have hfeed : '\n' ∉ "![a](b) *c* www.d http:/ <e@f> \\".toList := by decide
  have hhttp : ¬ "http://".toList <:+: "![a](b) *c* www.d http:/ <e@f> \\".toList := by decide
  have hhttps : ¬ "https://".toList <:+: "![a](b) *c* www.d http:/ <e@f> \\".toList := by decide
  exact ⟨hfeed, hhttp, hhttps,
    escaped_reads_literally .dfm [] Scope.document Point.start hfeed hhttp hhttps⟩

end Docmark
