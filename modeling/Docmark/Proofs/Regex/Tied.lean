import Docmark.Proofs.Regex.Grouped
import Docmark.RulePattern

/-!
# Expressions tied to the start of a text

A rule reads from where it stands, so the matches of its pattern should all start where the text
starts.  Whether an expression asks for that is told from its form (`Expr.isTied`): both sides of an
alternative must ask for it, one part of a row, and a repetition that may be left out does not count.
For expressions that ask nothing else and whose sets are inhabited, the form tells it exactly.

A pattern that is wrapped is tied if it is an expression by itself.  One that begins with a caret is
left as it is, and tied only as far as the caret reaches: not over an alternative, nor with a
repetition behind it that allows none, nor where flags turn it into the start of a line.

## Main results

* `Expr.Matches.starts_of_isTied` — what is tied matches at the start only.
* `Expr.exists_matches_of_not_isTied` — what is not tied, and plain, matches everywhere.
* `compile_ties_self_standing` — which patterns of rules are tied.
-/

namespace Docmark.Regex

variable {a : Alphabet} {e : Expr} {before taken after : Text}

/-- Whether an expression asks by its form for the start of the text. -/
def Expr.isTied : Expr → Bool
  | .empty => false
  | .look l => l = .textStart
  | .oneOf _ => false
  | .seq e f => e.isTied || f.isTied
  | .alt e f => e.isTied && f.isTied
  | .repeated low _ _ e => decide (0 < low) && e.isTied
  | .group e => e.isTied

/-- An expression whose matches all start at the start of the text. -/
def Expr.MatchesAtStart (a : Alphabet) (e : Expr) : Prop :=
  ∀ before taken after, e.Matches a before taken after → before = []

/-- An expression that asks for nothing but the start of the text, whose sets are inhabited and
whose repetitions are possible. -/
def Expr.IsPlain (a : Alphabet) : Expr → Prop
  | .empty => True
  | .look l => l = .textStart
  | .oneOf s => ∃ c, s.Has a c
  | .seq e f => e.IsPlain a ∧ f.IsPlain a
  | .alt e f => e.IsPlain a ∧ f.IsPlain a
  | .repeated low high _ e => e.IsPlain a ∧ ∀ n ∈ high, low ≤ n
  | .group e => e.IsPlain a

/-- What is tied matches at the start only. -/
theorem Expr.Matches.starts_of_isTied (h : e.Matches a before taken after)
    (htied : e.isTied = true) : before = [] := by
  induction h with
  | empty | oneOf => cases htied
  | look hl =>
    obtain rfl := of_decide_eq_true htied
    exact hl
  | seq _ _ ihe ihf =>
    rcases Bool.or_eq_true_iff.1 htied with htied | htied
    · exact ihe htied
    · exact (List.append_eq_nil_iff.1 (ihf htied)).1
  | altLeft _ ih => exact ih (Bool.and_eq_true_iff.1 htied).1
  | altRight _ ih => exact ih (Bool.and_eq_true_iff.1 htied).2
  | stop => simp [isTied] at htied
  | again _ _ _ ihe _ => exact ihe (Bool.and_eq_true_iff.1 htied).2
  | group _ ih => exact ih htied

/-- A match as often as asked for. -/
lemma Expr.exists_matches_repeated {low : Nat} {high : Option Nat} (greedy : Bool)
    (hbounds : ∀ n ∈ high, low ≤ n)
    (h : ∃ taken, ∀ before after, e.Matches a before taken after) :
    ∃ taken, ∀ before after, (Expr.repeated low high greedy e).Matches a before taken after := by
  obtain ⟨one, hone⟩ := h
  induction low generalizing high with
  | zero => exact ⟨[], fun before after => .stop⟩
  | succ low ih =>
    have hlower : ∀ n ∈ high.map (· - 1), low ≤ n := by
      intro n hn
      obtain ⟨m, hm, rfl⟩ := Option.mem_map.1 hn
      exact Nat.le_sub_one_of_lt (hbounds m hm)
    obtain ⟨taken, hrest⟩ := ih hlower
    refine ⟨one ++ taken, fun before after => .again ?_ (hone _ _) (hrest _ _)⟩
    rintro rfl
    exact absurd (hbounds 0 rfl) (Nat.not_succ_le_zero low)

/-- A plain expression that is not tied matches everywhere. -/
theorem Expr.exists_matches_of_not_isTied (hplain : e.IsPlain a) (h : e.isTied = false) :
    ∃ taken, ∀ before after, e.Matches a before taken after := by
  induction e with
  | empty => exact ⟨[], fun _ _ => .empty⟩
  | look l =>
    cases hplain
    cases h
  | oneOf s =>
    obtain ⟨c, hc⟩ := hplain
    exact ⟨[c], fun _ _ => .oneOf hc⟩
  | seq e f ihe ihf =>
    obtain ⟨he, hf⟩ := Bool.or_eq_false_iff.1 h
    obtain ⟨x, hx⟩ := ihe hplain.1 he
    obtain ⟨y, hy⟩ := ihf hplain.2 hf
    exact ⟨x ++ y, fun _ _ => .seq (hx _ _) (hy _ _)⟩
  | alt e f ihe ihf =>
    rcases Bool.and_eq_false_iff.1 h with he | hf
    · exact (ihe hplain.1 he).imp fun _ hx _ _ => .altLeft (hx _ _)
    · exact (ihf hplain.2 hf).imp fun _ hy _ _ => .altRight (hy _ _)
  | repeated low high greedy e ih =>
    rcases Bool.and_eq_false_iff.1 h with hlow | he
    · obtain rfl : low = 0 := Nat.eq_zero_of_not_pos (of_decide_eq_false hlow)
      exact ⟨[], fun _ _ => .stop⟩
    · exact exists_matches_repeated greedy hplain.2 (ih hplain.1 he)
  | group e ih => exact (ih hplain h).imp fun _ hx _ _ => .group (hx _ _)

/-- The form of a plain expression tells whether its matches start at the start of the text. -/
theorem Expr.matchesAtStart_iff (hplain : e.IsPlain a) : e.MatchesAtStart a ↔ e.isTied = true := by
  refine ⟨fun h => ?_, fun h _ _ _ hmatch => hmatch.starts_of_isTied h⟩
  by_contra htied
  obtain ⟨taken, hmatch⟩ := exists_matches_of_not_isTied hplain (Bool.eq_false_of_not_eq_true htied)
  exact absurd (h ['a'] taken [] (hmatch _ _)) (List.cons_ne_nil _ _)

end Docmark.Regex

namespace Docmark

open Regex

lemma parse_of_compile {rule : String} {pattern : Text} {p : RulePattern}
    (h : RulePattern.compile rule pattern = .ok p) : parse (anchored pattern) = .ok p.expr := by
  unfold RulePattern.compile at h
  cases hparse : parse (anchored pattern) with
  | error flaw =>
    rw [hparse] at h
    cases h
  | ok e =>
    rw [hparse] at h
    cases h
    rfl

/-- A pattern of a rule that does not begin with a caret matches at the start of the text only, if
it is an expression by itself.  Of the other patterns those do that are tied by their form, and of
the plain ones no others. -/
theorem compile_ties_self_standing {rule : String} {pattern : Text} {p : RulePattern}
    (h : RulePattern.compile rule pattern = .ok p) (a : Alphabet) :
    (beginsWithCaret pattern = false → ∀ e, parse pattern = .ok e →
      p.expr = .seq (.look .textStart) (.group e) ∧ p.expr.MatchesAtStart a) ∧
    (p.expr.isTied = true → p.expr.MatchesAtStart a) ∧
    (p.expr.IsPlain a → p.expr.MatchesAtStart a → p.expr.isTied = true) := by
  have hparse := parse_of_compile h
  have htied (hp : p.expr.isTied = true) : p.expr.MatchesAtStart a :=
    fun _ _ _ hmatch => hmatch.starts_of_isTied hp
  refine ⟨fun hcaret e he => ?_, htied, fun hplain => (Expr.matchesAtStart_iff hplain).1⟩
  rw [anchored, hcaret, if_neg Bool.false_ne_true] at hparse
  have hexpr := parse_grouped he hparse
  exact ⟨hexpr, htied (by rw [hexpr]; rfl)⟩

/-- Alternatives are wrapped as a whole. -/
theorem compile_ties_alternatives :
    RulePattern.compile "note" "a|b".toList = .ok ⟨"^(?:a|b)".toList,
      .seq (.look .textStart) (.group (.alt (.oneOf (.single 'a')) (.oneOf (.single 'b'))))⟩ ∧
    ∀ a, (Expr.seq (.look .textStart)
      (.group (.alt (.oneOf (.single 'a')) (.oneOf (.single 'b'))))).MatchesAtStart a := by
  have hcaret : beginsWithCaret "a|b".toList = false := by simp [beginsWithCaret]
  have hcompile : RulePattern.compile "note" "a|b".toList = .ok ⟨"^(?:a|b)".toList,
      .seq (.look .textStart) (.group (.alt (.oneOf (.single 'a')) (.oneOf (.single 'b'))))⟩ := by
    rw [RulePattern.compile, anchored, hcaret]
    rfl
  exact ⟨hcompile, fun a => ((compile_ties_self_standing hcompile a).1 hcaret _ rfl).2⟩

/-- A caret in front of the first alternative leaves the second one free. -/
theorem compile_of_caret_and_bar :
    ∃ p, RulePattern.compile "note" "^a|b".toList = .ok p ∧
      ∀ a, p.expr.Matches a "x".toList "b".toList [] := by
  have hcaret : beginsWithCaret "^a|b".toList = true := by simp [beginsWithCaret]
  refine ⟨⟨"^a|b".toList,
    .alt (.seq (.look .textStart) (.oneOf (.single 'a'))) (.oneOf (.single 'b'))⟩, ?_, fun a => ?_⟩
  · rw [RulePattern.compile, anchored, hcaret]
    rfl
  · exact .altRight (.oneOf ⟨le_rfl, le_rfl⟩)

/-- A pattern that is no expression by itself may close the group that it is put into, and open the
group that is closed behind it. -/
example : (RulePattern.compile "note" "a)|(?:b".toList).map (·.expr.isTied) = .ok false := by
  have hcaret : beginsWithCaret "a)|(?:b".toList = false := by simp [beginsWithCaret]
  rw [RulePattern.compile, anchored, hcaret]
  rfl

end Docmark
