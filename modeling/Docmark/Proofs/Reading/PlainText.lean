import Mathlib
import Docmark.Proofs.Reading.Openings

/-!
# Plain text and markup

Plain text does not try the other rules; it goes on up to the next character at which one of them
may begin, by a test of its own.  That test lets nothing through: where it does not stop, no other
construct of the dialect is recognised.  The exceptions are meant.  Behind a letter or a number an
underscore, an at sign and the first letter of an address belong to a word, and plain text goes on.

## Main results

* `InlineConstruct.recognize_eq_none` — where none of the characters stands with which constructs
  begin, no construct is recognised.
* `plainText_leaves_markup` — inside plain text no other rule recognises anything, wherever plain
  text is tried and in every text that is read.
-/

namespace Docmark

/-! ## Where no construct begins -/

/-- The characters with which constructs begin, but for line breaks and bare addresses. -/
def markChars : Text := "\\<![*\x60~_@".toList

/-- Nothing with which a construct might begin stands at the start of a text.  `bare` tells whether
bare addresses are constructs. -/
structure NothingBegins (bare : Bool) (cs : Text) : Prop where
  mark : ∀ c ∈ markChars, ¬ [c] <+: cs
  lineBreak : lineBreak? cs = none
  scheme : bare = true → ∀ p ∈ bareSchemes, ¬ p <+: cs

/-- **Where nothing begins**, no construct but plain text is recognised. -/
theorem InlineConstruct.recognize_eq_none {bare : Bool} {cur : Cursor}
    (h : NothingBegins bare cur.rest) (defs : Definitions) (nest : Option InlineReader)
    (scope : Scope) {c : InlineConstruct} (htext : ∀ b, c ≠ .text b)
    (hbare : c = .bareLink → bare = true) : c.recognize defs nest scope cur = .ok none := by
  have hmarked (hc : ∀ p ∈ c.openings, p.head?.any markChars.contains = true) :
      c.recognize defs nest scope cur = .ok none := by
    refine recognize_eq_none_of_openings (fun p hp hopening => ?_) defs nest scope
    have hfirst := hc p hp
    cases p with
    | nil => cases hfirst
    | cons m p =>
      exact h.mark m (by simpa using hfirst) ((List.prefix_append [m] p).trans hopening)
  cases c with
  | bareLink =>
    have hscheme : ∀ p ∈ bareLink.openings, ¬ p <+: cur.rest := h.scheme (hbare rfl)
    exact recognize_eq_none_of_openings hscheme defs nest scope
  | lineBreak => simp only [recognize, h.lineBreak, Option.map_none]
  | text b => exact absurd rfl (htext b)
  | _ => exact hmarked (by decide)

/-! ## Where plain text goes on -/

/-- The characters at which plain text goes on behind a letter or a number. -/
def wordChars : Text := ['_', '@', 'h', 'w']

lemma lineBreak?_eq_none {c : Char} {cs : Text} (hc : c ≠ '\\')
    (h : c = ' ' → ¬ (2 ≤ ((c :: cs).takeWhile (· = ' ')).length ∧
      (c :: cs)[((c :: cs).takeWhile (· = ' ')).length]? = some '\n')) :
    lineBreak? (c :: cs) = none := by
  simp only [lineBreak?]
  split
  next rest heq => exact absurd (List.cons.inj heq).1 hc
  next =>
    refine if_neg fun hblanks => ?_
    by_cases hblank : c = ' '
    · exact h hblank hblanks
    · rw [List.takeWhile_cons_of_neg (by simpa using hblank)] at hblanks
      exact absurd hblanks.1 (by decide)

lemma head_mem_wordChars {p : Text} (hp : p ∈ bareSchemes) {c : Char} {cs : Text}
    (h : p <+: c :: cs) : c = 'h' ∨ c = 'w' := by
  simp only [bareSchemes, List.mem_cons, List.not_mem_nil, or_false] at hp
  rcases hp with rfl | rfl | rfl
  · exact .inl (List.cons_prefix_cons.1 h).1.symm
  · exact .inl (List.cons_prefix_cons.1 h).1.symm
  · exact .inr (List.cons_prefix_cons.1 h).1.symm

/-- Where plain text does not stop nothing begins, unless a word goes on. -/
lemma nothingBegins_of_not_stops {bare : Bool} {previous c : Char} {cs : Text}
    (h : stopsText bare previous (c :: cs) = false)
    (hword : ¬ (isAlphanumeric previous = true ∧ c ∈ wordChars)) :
    NothingBegins bare (c :: cs) := by
  simp only [stopsText] at h
  have hstop : "\\<![*\x60~".toList.contains c = false := by
    by_contra hc
    rw [Bool.not_eq_false] at hc
    simp only [hc, if_true] at h
    cases h
  have hinner : ¬ (c = '_' ∨ c = '@') := by
    intro hc
    have hmem : c ∈ wordChars := by rcases hc with rfl | rfl <;> decide
    simp only [hstop, hc, if_true, Bool.false_eq_true, if_false, Bool.not_eq_false'] at h
    exact hword ⟨h, hmem⟩
  simp only [hstop, hinner, Bool.false_eq_true, if_false] at h
  refine ⟨fun m hm hbegins => ?_, lineBreak?_eq_none ?_ fun hblank => ?_,
    fun hbare p hp hbegins => ?_⟩
  · obtain rfl : m = c := by simpa using hbegins
    have hsplit : markChars = "\\<![*\x60~".toList ++ ['_', '@'] := rfl
    rw [hsplit, List.mem_append, List.mem_pair] at hm
    refine hm.elim (fun hm => ?_) hinner
    rw [List.contains_eq_mem, decide_eq_false_iff_not] at hstop
    exact hstop hm
  · rintro rfl
    cases hstop
  · rw [if_pos hblank] at h
    simpa using h
  · have hfirst := head_mem_wordChars hp hbegins
    have hmem : c ∈ wordChars := by rcases hfirst with rfl | rfl <;> decide
    have hblank : c ≠ ' ' := by rcases hfirst with rfl | rfl <;> decide
    rw [if_neg hblank, if_pos ⟨hfirst, hbare, fun hprevious => hword ⟨hprevious, hmem⟩⟩,
      List.any_eq_false] at h
    exact h p hp (List.isPrefixOf_iff_prefix.2 hbegins)

/-- Plain text does not stop in front of any of its characters but the first. -/
lemma not_stops_inside {bare : Bool} {first p c : Char} {cs before after : Text}
    (h : first :: cs.take (plainLength bare first cs) = before ++ p :: c :: after) :
    stopsText bare p (cs.drop before.length) = false := by
  induction before generalizing first cs with
  | nil =>
    obtain ⟨rfl, hrest⟩ := List.cons.inj h
    cases cs with
    | nil => cases hrest
    | cons d cs =>
      by_contra hstops
      rw [plainLength, if_pos (by simpa using hstops)] at hrest
      cases hrest
  | cons b before ih =>
    obtain ⟨-, hrest⟩ := List.cons.inj h
    cases cs with
    | nil => simp at hrest
    | cons d cs =>
      rw [plainLength] at hrest
      split at hrest
      next => simp at hrest
      next => exact ih hrest

/-! ## Rules inside plain text -/

/-- Inside the next `n` characters no rule recognises anything, where it is not the one for plain
text and no word goes on. -/
def RuleSet.FindsNothingIn (rules : RuleSet) (defs : Definitions) (nest : Option InlineReader)
    (scope : Scope) (cur : Cursor) (n : Nat) : Prop :=
  ∀ before p c after, cur.rest.take n = before ++ p :: c :: after →
    ¬ (isAlphanumeric p = true ∧ c ∈ wordChars) →
      ∀ r ∈ rules.inline, r.name ≠ "text" →
        Declines (InlineRule.attempt defs nest scope (cur.drop (before.length + 1))) r

/-- Plain text ends in front of bare addresses if there is a rule for these. -/
def RuleSet.TextHeedsBare (rules : RuleSet) : Prop :=
  ∀ bare, .standard (.text bare) ∈ rules.inline → .standard .bareLink ∈ rules.inline → bare = true

lemma Flavor.rules_textHeedsBare (f : Flavor) : f.rules.TextHeedsBare := by
  intro bare htext hlink
  cases f with
  | markdown => simp [rules, markdownRules] at hlink
  | gfm => simpa [rules, gfmRules] using htext
  | dfm => simpa [rules, dfmRules] using htext

/-- Every dialect tries plain text last, and then it ends in front of bare addresses if these are
constructs. -/
lemma Flavor.rules_text (f : Flavor) : ∃ (before : List InlineConstruct) (bare : Bool),
    f.rules.inline = (before ++ InlineConstruct.text bare :: []).map .standard ∧
      (∀ c ∈ before, ∀ b, c ≠ .text b) ∧ (.bareLink ∈ before → bare = true) := by
  cases f with
  | markdown =>
    exact ⟨[.escape, .autoLink, .tag, .link, .refLink, .shortLink, .strong, .em, .code, .lineBreak],
      false, rfl, by simp, by simp⟩
  | gfm =>
    exact ⟨[.escape, .autoLink, .bareLink, .tag, .link, .refLink, .shortLink, .strong, .em, .code,
      .lineBreak, .del], true, rfl, by simp, by simp⟩
  | dfm =>
    exact ⟨[.escape, .directive, .angledXref, .autoLink, .bareLink, .tag, .link, .refLink,
      .shortLink, .strong, .em, .code, .lineBreak, .del, .shortXref], true, rfl, by simp, by simp⟩

/-- Plain text takes the first character and those behind it that it does not stop at. -/
lemma InlineConstruct.recognize_text {bare : Bool} {first : Char} {taken left : Text} {cur : Cursor}
    (hcur : cur.rest = first :: (taken ++ left))
    (hlength : plainLength bare first (taken ++ left) = taken.length) (defs : Definitions)
    (nest : Option InlineReader) (scope : Scope) : (text bare).recognize defs nest scope cur =
      .ok (some ⟨taken.length + 1, .leaf (.text (first :: taken))⟩) := by
  simp only [recognize, hcur, plainText?, hlength, List.take_succ_cons, List.take_left]
  rfl

lemma InlineConstruct.exists_text {c : InlineConstruct} (h : c.name = "text") :
    ∃ bare, c = .text bare := by
  cases c with
  | text bare => exact ⟨bare, rfl⟩
  | _ => exact absurd h (by decide)

section Inside

variable {rules : RuleSet} {defs : Definitions} {nest : Option InlineReader} {scope : Scope}
  {cur : Cursor}

/-- What plain text takes, the other rules find nothing in. -/
lemma RuleSet.findsNothingIn_plainText (hrules : rules.IsStandard) (hheeds : rules.TextHeedsBare)
    {bare : Bool} (hmem : .standard (.text bare) ∈ rules.inline) {m : Found Inline.Leaf}
    (h : plainText? bare cur.rest = some m) :
    rules.FindsNothingIn defs nest scope cur m.length := by
  intro before p c after hsplit hword r hr hname
  cases hrest : cur.rest with
  | nil => rw [hrest] at h; cases h
  | cons first cs =>
    rw [hrest, plainText?] at h
    obtain rfl := Option.some.inj h
    rw [hrest] at hsplit
    have hstops := not_stops_inside hsplit
    have hleft : (cur.drop (before.length + 1)).rest = cs.drop before.length := by
      rw [Cursor.drop, hrest, List.drop_succ_cons]
    have hhead : cs.drop before.length = c :: (after ++ cs.drop (plainLength bare first cs)) := by
      have hwhole : first :: cs =
          (before ++ [p]) ++ c :: (after ++ cs.drop (plainLength bare first cs)) := by
        have htake : first :: cs.take (plainLength bare first cs) = before ++ p :: c :: after :=
          hsplit
        rw [← List.take_append_drop (plainLength bare first cs) cs, ← List.cons_append, htake]
        simp
      have hdrop := congrArg (List.drop (before.length + 1)) hwhole
      rwa [List.drop_left' (by simp), List.drop_succ_cons] at hdrop
    rw [hhead] at hstops hleft
    have hnothing := nothingBegins_of_not_stops hstops hword
    rw [← hleft] at hnothing
    obtain ⟨d, rfl⟩ := hrules.inline r hr
    refine declines_of_inline (InlineConstruct.recognize_eq_none hnothing defs nest scope ?_ ?_)
    · rintro b rfl
      exact hname rfl
    · rintro rfl
      exact hheeds bare hmem hr

/-- A token of plain text is the text that was taken, and no rule finds anything inside. -/
lemma InlineConstruct.text_recognized (hrules : rules.IsStandard) (hheeds : rules.TextHeedsBare)
    {bare : Bool} (hmem : .standard (.text bare) ∈ rules.inline) {found : Found Inline.Body}
    (h : (InlineConstruct.text bare).recognize defs nest scope cur = .ok (some found)) :
    found.length ≤ cur.rest.length ∧ found.value = .leaf (.text (cur.rest.take found.length)) ∧
      rules.FindsNothingIn defs nest scope cur found.length := by
  obtain ⟨m, hm, rfl⟩ := Option.map_eq_some_iff.1 (Except.ok.inj h)
  refine ⟨(plainText?_fits hm).2, ?_, RuleSet.findsNothingIn_plainText hrules hheeds hmem hm⟩
  cases hrest : cur.rest with
  | nil => rw [hrest] at hm; cases hm
  | cons first cs =>
    rw [hrest, plainText?] at hm
    obtain rfl := Option.some.inj hm
    rfl

end Inside

/-- **Plain text leaves markup alone.**  Wherever the rule for plain text of a dialect makes a
token, that is the text it spans, and strictly inside no other rule of the dialect recognises
anything but where a word goes on behind a letter or number.  So it is with the tokens of plain text
that the reading of a text yields. -/
theorem plainText_leaves_markup (f : Flavor) (defs : Definitions) :
    (∀ (nest : Option InlineReader) (scope : Scope) (cur : Cursor),
      ∀ r ∈ f.rules.inline, r.name = "text" → ∀ t n,
        r.attempt defs nest scope cur = .ok ⟨some t, n⟩ →
          n ≤ cur.rest.length ∧ t = .leaf ⟨"text", cur.spanOf n⟩ (.text (cur.rest.take n)) ∧
            f.rules.FindsNothingIn defs nest scope cur n) ∧
    ∀ scope text origin ts, readInlines f.rules defs scope text origin = .ok ts →
      ∀ t ∈ ts, t.head.rule = "text" → ∃ cur n, Cursor.IsIn cur text origin ∧
        t = .leaf ⟨"text", cur.spanOf n⟩ (.text (cur.rest.take n)) ∧
          f.rules.FindsNothingIn defs
            (if scope.canNest then some (readInlines f.rules defs) else none) scope.toInline
            cur n := by
  have hrules := f.rules_isStandard
  have hheeds := f.rules_textHeedsBare
  constructor
  · intro nest scope cur r hr hname t n h
    obtain ⟨c, rfl⟩ := hrules.inline r hr
    obtain ⟨bare, rfl⟩ := InlineConstruct.exists_text hname
    obtain ⟨found, hfound, rfl, rfl⟩ := InlineRule.exists_of_attempt h
    obtain ⟨hlength, hvalue, hnothing⟩ := InlineConstruct.text_recognized hrules hheeds hr hfound
    rw [hvalue]
    exact ⟨hlength, rfl, hnothing⟩
  · intro scope text origin ts h
    rw [readInlines_isReading f.rules defs scope] at h
    obtain ⟨-, rfl⟩ := Run.tokens_of_toExcept h
    refine readAll_places ?_ _ (Cursor.isIn_ofText text origin)
    intro cur m hcur hm hrule
    obtain ⟨c, found, hc, hfound, rfl⟩ := nextInline_some hrules hm
    obtain ⟨bare, rfl⟩ : ∃ bare, c = .text bare := by
      refine InlineConstruct.exists_text ?_
      rw [← hrule]
      cases found.value <;> rfl
    obtain ⟨-, hvalue, hnothing⟩ := InlineConstruct.text_recognized hrules hheeds hc hfound
    rw [hvalue]
    exact ⟨cur, found.length, hcur, rfl, hnothing⟩

/-- A token of plain text with an underscore inside a word and a blank that ends no line. -/
theorem plainText_leaves_markup_dfm :
    InlineRule.attempt [] none Scope.document (Cursor.ofText "a_b  c *d*".toList Point.start)
        (.standard (.text true)) =
      .ok ⟨some (.leaf ⟨"text", ⟨Point.start, ⟨1, 8, 7⟩⟩⟩ (.text "a_b  c ".toList)), 7⟩ ∧
    Flavor.dfm.rules.FindsNothingIn [] none Scope.document
      (Cursor.ofText "a_b  c *d*".toList Point.start) 7 := by
  obtain ⟨hstep, -⟩ := plainText_leaves_markup .dfm []
  exact ⟨rfl, (hstep none Scope.document (Cursor.ofText "a_b  c *d*".toList Point.start)
    (.standard (.text true)) (by simp [Flavor.rules, dfmRules]) rfl _ 7 rfl).2.2⟩

end Docmark
