import Mathlib
import Docmark.Proofs.Reading.Places

/-!
# The choice of a rule

Rules are tried in order, so the rule that yields a token stands behind rules that all declined.
What a token is depends on that for the rules that take whatever is left to them, and on the input
that the rule was shown for the rules that look at more than their own text.  `RuleSet.Picks` says
both of one step, and `scanBlocks_picks` carries what each step gives to all levels of nesting.
-/

namespace Docmark

/-- A token comes from one of the rules, behind others that all declined. -/
lemma firstMatch_split {ρ α : Type} {nameOf : ρ → String}
    {attempt : ρ → Except Fault (Attempt α)} {rs : List ρ} {m : Match α}
    (h : firstMatch nameOf attempt rs = .ok (some m)) :
    ∃ before r after, rs = before ++ r :: after ∧
      (∀ d ∈ before, ∃ moved, attempt d = .ok ⟨none, moved⟩) ∧
        attempt r = .ok ⟨some m.token, m.length⟩ := by
  induction rs with
  | nil => cases h
  | cons r rs ih =>
    simp only [firstMatch] at h
    split at h
    next => cases h
    next moved hr =>
      obtain ⟨before, r', after, rfl, hbefore, hm⟩ := ih h
      refine ⟨r :: before, r', after, rfl, ?_, hm⟩
      intro d hd
      rcases List.mem_cons.1 hd with rfl | hd
      · exact ⟨moved, hr⟩
      · exact hbefore d hd
    next token moved hr =>
      cases h
      exact ⟨[], r, rs, rfl, by simp, hr⟩

/-- At a cursor, a construct is recognised and every rule in front of it declines. -/
def RuleSet.Picks (rules : RuleSet) (nest : Option BlockReader) (scope : Scope) (cur : Cursor)
    (c : BlockConstruct) (found : Found Block.Body) : Prop :=
  c.recognize nest scope cur = .ok (some found) ∧
    ∃ before after, rules.block = before ++ .standard c :: after ∧
      ∀ r ∈ before, ∃ moved, r.attempt nest scope cur = .ok ⟨none, moved⟩

/-- A construct in front of the one that is picked is not recognised. -/
lemma RuleSet.Picks.declined {rules : RuleSet} {nest : Option BlockReader} {scope : Scope}
    {cur : Cursor} {c d : BlockConstruct} {found : Found Block.Body}
    (h : rules.Picks nest scope cur c found)
    (hd : ∀ before after, rules.block = before ++ .standard c :: after → .standard d ∈ before) :
    d.recognize nest scope cur = .ok none := by
  obtain ⟨-, before, after, hrules, hbefore⟩ := h
  obtain ⟨moved, hmoved⟩ := hbefore _ (hd before after hrules)
  simp only [BlockRule.attempt] at hmoved
  split at hmoved
  next => cases hmoved
  next hnone => exact hnone
  next => cases hmoved

/-- Every block that a reader yields has a property, which may depend on the scope and the text. -/
def BlockReader.Reads (read : BlockReader) (P : Scope → Text → Block → Prop) : Prop :=
  ∀ scope text origin bs, read scope text origin = .ok bs → ∀ b ∈ bs, P scope text b

section Induction

variable {rules : RuleSet} (hrules : rules.IsStandard) {P : Scope → Text → Block → Prop}
  (hgrow : ∀ scope before rest b, P scope rest b → P scope (before ++ rest) b)

include hrules hgrow

/-- What each pick gives its token, given the input that is left, every block of a text has. -/
lemma runBlocks_picks {nest : Option BlockReader} {scope : Scope}
    (step : ∀ (cur : Cursor) (c : BlockConstruct) (found : Found Block.Body),
      rules.Picks nest scope cur c found →
        P scope cur.rest (.ofBody ⟨c.name, cur.spanOf found.length⟩ found.value))
    (text : Text) (origin : Point) :
    ∀ b ∈ (runBlocks rules nest scope text origin).tokens, P scope text b := by
  refine readAll_places ?_ _ (Cursor.isIn_ofText text origin)
  rintro cur m ⟨passed, htext, -⟩ hm
  obtain ⟨before, r, after, hblock, hbefore, hattempt⟩ := firstMatch_split hm
  obtain ⟨c, rfl⟩ := hrules.block r (by rw [hblock]; simp)
  obtain ⟨found, hfound, htoken, -⟩ := BlockRule.exists_of_attempt hattempt
  have hpick : rules.Picks nest scope cur c found := ⟨hfound, before, after, hblock, hbefore⟩
  rw [htoken, htext]
  exact hgrow _ _ _ _ (step cur c found hpick)

/-- **Induction over picks.**  A property that every pick gives its token, if the blocks that its
readers yield have it, holds of all blocks of the first pass, at every level. -/
theorem scanBlocks_picks
    (step : ∀ nest, (∀ read, nest = some read → BlockReader.Reads read P) →
      ∀ (scope : Scope) (cur : Cursor) (c : BlockConstruct) (found : Found Block.Body),
        rules.Picks nest scope cur c found →
          P scope cur.rest (.ofBody ⟨c.name, cur.spanOf found.length⟩ found.value))
    (scope : Scope) (text : Text) (origin : Point) :
    ∀ b ∈ (scanBlocks rules scope text origin).tokens, P scope text b := by
  have hlevels : ∀ n, BlockReader.Reads (blocksAt rules n) P := by
    intro n
    induction n with
    | zero =>
      intro scope text origin bs h
      obtain ⟨-, rfl⟩ := Run.tokens_of_toExcept h
      exact runBlocks_picks hrules hgrow (step none (by simp) scope) text origin
    | succ n ih =>
      intro scope text origin bs h
      obtain ⟨-, rfl⟩ := Run.tokens_of_toExcept h
      refine runBlocks_picks hrules hgrow (step _ ?_ scope) text origin
      rintro read ⟨⟩
      exact ih
  refine runBlocks_picks hrules hgrow (step _ ?_ scope) text origin
  intro read hread
  simp only [nestedBlocks] at hread
  split at hread
  · cases hread
  · cases hread
    exact hlevels _

end Induction

end Docmark
