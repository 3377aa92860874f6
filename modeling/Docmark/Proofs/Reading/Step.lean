import Mathlib
import Docmark.Proofs.Extent.Rule
import Docmark.Proofs.Outcome
import Docmark.Flavor
import Docmark.Reader

/-!
# The steps of a reading

A reading tries rules in order and takes the first token that a rule yields.  `firstMatch_some` says
where a token comes from, `readAll_total` and `readAll_invariant` what a reading has if each of its
steps has it, and `blocksAt_yields` and `inlinesAt_yields` carry a property of the tokens of one
construct through all levels of nesting; `blocksAt_induction` and `inlinesAt_induction` do so for a
property of whole readings.
-/

namespace Docmark

/-! ## Sets of the language's own rules -/

/-- A rule set without rules of its own: each rule is a construct of the language. -/
structure RuleSet.IsStandard (rs : RuleSet) : Prop where
  block : ∀ r ∈ rs.block, ∃ c, r = .standard c
  inline : ∀ r ∈ rs.inline, ∃ c, r = .standard c

lemma Flavor.rules_isStandard (f : Flavor) : f.rules.IsStandard := by
  cases f <;> constructor <;> simp [Flavor.rules, markdownRules, gfmRules, dfmRules]

/-! ## One step -/

section Step

variable {ρ α : Type} {nameOf : ρ → String} {attempt : ρ → Except Fault (Attempt α)} {rs : List ρ}

/-- A token comes from one of the rules, together with the characters that the rule took. -/
lemma firstMatch_some {m : Match α} (h : firstMatch nameOf attempt rs = .ok (some m)) :
    ∃ r ∈ rs, attempt r = .ok ⟨some m.token, m.length⟩ ∧ m.rule = nameOf r := by
  induction rs with
  | nil => cases h
  | cons r rs ih =>
    simp only [firstMatch] at h
    split at h
    next => cases h
    next =>
      obtain ⟨r', hr', hm⟩ := ih h
      exact ⟨r', List.mem_cons_of_mem _ hr', hm⟩
    next token moved hr =>
      cases h
      exact ⟨r, List.mem_cons_self, hr, rfl⟩

/-- Some rule is found if no rule fails and one of them yields a token. -/
lemma exists_firstMatch (hok : ∀ r ∈ rs, ∃ a, attempt r = .ok a)
    (hsome : ∃ r ∈ rs, ∃ token moved, attempt r = .ok ⟨some token, moved⟩) :
    ∃ m, firstMatch nameOf attempt rs = .ok (some m) := by
  induction rs with
  | nil =>
    obtain ⟨r, hr, -⟩ := hsome
    cases hr
  | cons r rs ih =>
    obtain ⟨⟨token, moved⟩, hr⟩ := hok r List.mem_cons_self
    simp only [firstMatch, hr]
    cases token with
    | some token => exact ⟨_, rfl⟩
    | none =>
      refine ih (fun r' hr' => hok r' (List.mem_cons_of_mem _ hr')) ?_
      obtain ⟨r', hr', token, moved', htoken⟩ := hsome
      rcases List.mem_cons.1 hr' with rfl | hr'
      · rw [hr] at htoken
        cases htoken
      · exact ⟨r', hr', token, moved', htoken⟩

end Step

/-! ## A whole reading -/

section Reading

variable {α : Type} {next : Cursor → Except Fault (Option (Match α))}

/-- If every step from a cursor with `I` yields a token with `P` and leads to a cursor with `I`, every
token of the reading has `P`. -/
lemma readAll_invariant {I : Cursor → Prop} {P : α → Prop}
    (hstep : ∀ cur m, I cur → cur.rest ≠ [] → next cur = .ok (some m) →
      P m.token ∧ I (cur.drop m.length)) (cur : Cursor) (hcur : I cur) :
    ∀ t ∈ (readAll next cur).tokens, P t := by
  fun_induction readAll next cur with
  | case1 => simp
  | case2 => simp
  | case3 => simp
  | case4 => simp
  | case5 cur hrest m hm hlen rest ih =>
    obtain ⟨htoken, hleft⟩ := hstep cur m hcur hrest hm
    intro t ht
    rcases List.mem_cons.1 ht with rfl | ht
    · exact htoken
    · exact ih hleft t ht

/-- What every step's token has, every token of the reading has. -/
lemma readAll_tokens {P : α → Prop}
    (h : ∀ cur m, cur.rest ≠ [] → next cur = .ok (some m) → P m.token) (cur : Cursor) :
    ∀ t ∈ (readAll next cur).tokens, P t :=
  readAll_invariant (I := fun _ => True) (fun cur m _ hrest hm => ⟨h cur m hrest hm, trivial⟩) cur
    trivial

/-- A reading reaches the end of its input if every step yields a token that takes something. -/
lemma readAll_total
    (h : ∀ cur, cur.rest ≠ [] → ∃ m, next cur = .ok (some m) ∧ 0 < m.length) (cur : Cursor) :
    (readAll next cur).fault = none := by
  fun_induction readAll next cur with
  | case1 => rfl
  | case2 cur hrest e he =>
    obtain ⟨m, hm, -⟩ := h cur hrest
    rw [he] at hm
    cases hm
  | case3 cur hrest hnone =>
    obtain ⟨m, hm, -⟩ := h cur hrest
    rw [hnone] at hm
    cases hm
  | case4 cur hrest m hm hlen =>
    obtain ⟨m', hm', hpos⟩ := h cur hrest
    rw [hm] at hm'
    cases hm'
    omega
  | case5 cur hrest m hm hlen rest ih => exact ih

lemma Run.toExcept_of_fault_none {r : Run α} (h : r.fault = none) : r.toExcept = .ok r.tokens := by
  simp [Run.toExcept, h]

lemma Run.tokens_of_toExcept {r : Run α} {ts : List α} (h : r.toExcept = .ok ts) :
    r.fault = none ∧ r.tokens = ts := by
  simp only [Run.toExcept] at h
  split at h
  next hfault => exact ⟨hfault, Except.ok.inj h⟩
  next => cases h

end Reading

/-! ## Steps of standard rules -/

section Standard

variable {rules : RuleSet} {scope : Scope} {cur : Cursor}

/-- A rule of the language yields a token where its construct is recognised. -/
lemma BlockRule.exists_of_attempt {nest : Option BlockReader} {c : BlockConstruct} {b : Block}
    {n : Nat} (h : BlockRule.attempt nest scope cur (.standard c) = .ok ⟨some b, n⟩) :
    ∃ found, c.recognize nest scope cur = .ok (some found) ∧
      b = .ofBody ⟨c.name, cur.spanOf found.length⟩ found.value ∧ n = found.length := by
  simp only [attempt] at h
  split at h
  next => cases h
  next => cases h
  next found hfound =>
    cases h
    exact ⟨found, hfound, rfl, rfl⟩

lemma InlineRule.exists_of_attempt {defs : Definitions} {nest : Option InlineReader}
    {c : InlineConstruct} {t : Inline} {n : Nat}
    (h : InlineRule.attempt defs nest scope cur (.standard c) = .ok ⟨some t, n⟩) :
    ∃ found, c.recognize defs nest scope cur = .ok (some found) ∧
      t = .ofBody ⟨c.name, cur.spanOf found.length⟩ found.value ∧ n = found.length := by
  simp only [attempt] at h
  split at h
  next => cases h
  next => cases h
  next found hfound =>
    cases h
    exact ⟨found, hfound, rfl, rfl⟩

/-- A token of a standard block rule is what its construct found, over the characters that it
takes. -/
lemma nextBlock_some {nest : Option BlockReader} {m : Match Block} (hrules : rules.IsStandard)
    (h : nextBlock rules nest scope cur = .ok (some m)) :
    ∃ c found, .standard c ∈ rules.block ∧ c.recognize nest scope cur = .ok (some found) ∧
      m = ⟨c.name, .ofBody ⟨c.name, cur.spanOf found.length⟩ found.value, found.length⟩ := by
  obtain ⟨r, hr, hattempt, hrule⟩ := firstMatch_some h
  obtain ⟨c, rfl⟩ := hrules.block r hr
  obtain ⟨found, hfound, htoken, hlength⟩ := BlockRule.exists_of_attempt hattempt
  refine ⟨c, found, hr, hfound, ?_⟩
  cases m
  cases hrule
  cases htoken
  cases hlength
  rfl

/-- A token of a standard inline rule is what its construct found, over the characters that it
takes. -/
lemma nextInline_some {defs : Definitions} {nest : Option InlineReader} {m : Match Inline}
    (hrules : rules.IsStandard) (h : nextInline rules defs nest scope cur = .ok (some m)) :
    ∃ c found, .standard c ∈ rules.inline ∧ c.recognize defs nest scope cur = .ok (some found) ∧
      m = ⟨c.name, .ofBody ⟨c.name, cur.spanOf found.length⟩ found.value, found.length⟩ := by
  obtain ⟨r, hr, hattempt, hrule⟩ := firstMatch_some h
  obtain ⟨c, rfl⟩ := hrules.inline r hr
  obtain ⟨found, hfound, htoken, hlength⟩ := InlineRule.exists_of_attempt hattempt
  refine ⟨c, found, hr, hfound, ?_⟩
  cases m
  cases hrule
  cases htoken
  cases hlength
  rfl

end Standard

/-! ## Readings in readings -/

/-- Every block that a reader yields has a property, which may depend on the scope. -/
def BlockReader.Yields (read : BlockReader) (P : Scope → Block → Prop) : Prop :=
  ∀ scope text origin bs, read scope text origin = .ok bs → ∀ b ∈ bs, P scope b

/-- Every inline token that a reader yields has a property, which may depend on the scope. -/
def InlineReader.Yields (read : InlineReader) (P : Scope → Inline → Prop) : Prop :=
  ∀ scope text origin ts, read scope text origin = .ok ts → ∀ t ∈ ts, P scope t

section Induction

variable {rules : RuleSet} (hrules : rules.IsStandard)

include hrules

/-- What each construct passes on from its nested content to its token, every block has that is read
with such nested content. -/
lemma runBlocks_tokens {P : Scope → Block → Prop} {nest : Option BlockReader} {scope : Scope}
    (step : ∀ (cur : Cursor) (c : BlockConstruct) (found : Found Block.Body),
      .standard c ∈ rules.block → c.recognize nest scope cur = .ok (some found) →
        P scope (.ofBody ⟨c.name, cur.spanOf found.length⟩ found.value))
    (text : Text) (origin : Point) :
    ∀ b ∈ (runBlocks rules nest scope text origin).tokens, P scope b := by
  refine readAll_tokens ?_ _
  intro cur m _ hm
  obtain ⟨c, found, hc, hfound, rfl⟩ := nextBlock_some hrules hm
  exact step cur c found hc hfound

/-- **Induction over the nesting of blocks.**  A property that every construct's token has if the
blocks that its readers yield have it holds of all blocks, at every level. -/
theorem blocksAt_yields {P : Scope → Block → Prop}
    (step : ∀ nest, (∀ read, nest = some read → BlockReader.Yields read P) →
      ∀ (scope : Scope) (cur : Cursor) (c : BlockConstruct) (found : Found Block.Body),
        .standard c ∈ rules.block → c.recognize nest scope cur = .ok (some found) →
          P scope (.ofBody ⟨c.name, cur.spanOf found.length⟩ found.value))
    (n : Nat) : BlockReader.Yields (blocksAt rules n) P := by
  induction n with
  | zero =>
    intro scope text origin bs h
    obtain ⟨-, rfl⟩ := Run.tokens_of_toExcept h
    exact runBlocks_tokens hrules (step none (by simp) scope) text origin
  | succ n ih =>
    intro scope text origin bs h
    obtain ⟨-, rfl⟩ := Run.tokens_of_toExcept h
    refine runBlocks_tokens hrules (step _ ?_ scope) text origin
    rintro read ⟨⟩
    exact ih

/-- The first pass over a text has what `blocksAt_yields` gives, also where it ends early. -/
theorem scanBlocks_tokens {P : Scope → Block → Prop}
    (step : ∀ nest, (∀ read, nest = some read → BlockReader.Yields read P) →
      ∀ (scope : Scope) (cur : Cursor) (c : BlockConstruct) (found : Found Block.Body),
        .standard c ∈ rules.block → c.recognize nest scope cur = .ok (some found) →
          P scope (.ofBody ⟨c.name, cur.spanOf found.length⟩ found.value))
    (scope : Scope) (text : Text) (origin : Point) :
    ∀ b ∈ (scanBlocks rules scope text origin).tokens, P scope b := by
  refine runBlocks_tokens hrules (step _ ?_ scope) text origin
  intro read hread
  simp only [nestedBlocks] at hread
  split at hread
  · cases hread
  · cases hread
    exact blocksAt_yields hrules step _

/-- What each construct passes on from its nested content to its token, every inline token has that
is read with such nested content. -/
lemma runInlines_tokens {defs : Definitions} {P : Inline → Prop} {nest : Option InlineReader}
    {scope : Scope}
    (step : ∀ (cur : Cursor) (c : InlineConstruct) (found : Found Inline.Body),
      .standard c ∈ rules.inline → c.recognize defs nest scope.toInline cur = .ok (some found) →
        P (.ofBody ⟨c.name, cur.spanOf found.length⟩ found.value))
    {text : Text} {origin : Point} {ts : List Inline}
    (h : runInlines rules defs nest scope text origin = .ok ts) : ∀ t ∈ ts, P t := by
  obtain ⟨-, rfl⟩ := Run.tokens_of_toExcept h
  refine readAll_tokens ?_ _
  intro cur m _ hm
  obtain ⟨c, found, hc, hfound, rfl⟩ := nextInline_some hrules hm
  exact step cur c found hc hfound

/-- **Induction over the nesting of inlines.**  A property that every construct's token has if the
tokens that its readers yield have it holds of all tokens, at every level. -/
theorem inlinesAt_yields {defs : Definitions} {P : Scope → Inline → Prop}
    (step : ∀ nest, (∀ read, nest = some read → InlineReader.Yields read P) →
      ∀ (scope : Scope) (cur : Cursor) (c : InlineConstruct) (found : Found Inline.Body),
        .standard c ∈ rules.inline →
          c.recognize defs nest scope.toInline cur = .ok (some found) →
          P scope (.ofBody ⟨c.name, cur.spanOf found.length⟩ found.value))
    (n : Nat) : InlineReader.Yields (inlinesAt rules defs n) P := by
  have hrun (nest : Option InlineReader)
      (hnest : ∀ read, nest = some read → InlineReader.Yields read P) :
      InlineReader.Yields (runInlines rules defs nest) P := by
    intro scope text origin ts h
    exact runInlines_tokens hrules (step nest hnest scope) h
  induction n with
  | zero => exact hrun none (by simp)
  | succ n ih =>
    refine hrun _ ?_
    rintro read ⟨⟩
    exact ih

end Induction

/-! ### Readers as a whole -/

section Levels

variable {rules : RuleSet}

/-- **Induction over readers of blocks.**  What a reading has whose nested reader has it, the readers
of all levels have. -/
lemma blocksAt_induction {P : BlockReader → Prop}
    (step : ∀ nest, (∀ read, nest = some read → P read) →
      P fun scope text origin => (runBlocks rules nest scope text origin).toExcept)
    (n : Nat) : P (blocksAt rules n) := by
  induction n with
  | zero => exact step none (by simp)
  | succ n ih =>
    refine step _ ?_
    rintro read ⟨⟩
    exact ih

/-- The reader of nested content in the first pass has what the readers of all levels have. -/
lemma nestedBlocks_induction {P : BlockReader → Prop}
    (step : ∀ nest, (∀ read, nest = some read → P read) →
      P fun scope text origin => (runBlocks rules nest scope text origin).toExcept)
    {scope : Scope} {read : BlockReader} (h : nestedBlocks rules scope = some read) : P read := by
  simp only [nestedBlocks] at h
  split at h
  · cases h
  · cases h
    exact blocksAt_induction step _

/-- **Induction over readers of inlines.** -/
lemma inlinesAt_induction {defs : Definitions} {P : InlineReader → Prop}
    (step : ∀ nest, (∀ read, nest = some read → P read) → P (runInlines rules defs nest))
    (n : Nat) : P (inlinesAt rules defs n) := by
  induction n with
  | zero => exact step none (by simp)
  | succ n ih =>
    refine step _ ?_
    rintro read ⟨⟩
    exact ih

end Levels

end Docmark
