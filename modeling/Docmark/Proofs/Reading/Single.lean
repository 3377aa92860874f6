import Mathlib
import Docmark.Proofs.Reading.Recursion
import Docmark.Proofs.Reading.Total

/-!
# One step of a reading

What a reading does at a cursor is settled by the first rule that does not decline there
(`nextBlock_of_declined`, `nextInline_of_declined`), and its tokens are the token of that rule and
what is read behind it (`readAll_cons`).  A text that one construct takes to its end, once every
rule before it has declined, is that one token (`readBlocks_single`, `readInlines_single`).
-/

namespace Docmark

/-! ## Steps and their rest -/

section Step

variable {ρ α : Type} {nameOf : ρ → String} {attempt : ρ → Except Fault (Attempt α)}

/-- Rules that decline leave the choice to the rules behind them. -/
lemma firstMatch_append {before rs : List ρ}
    (h : ∀ r ∈ before, ∃ moved, attempt r = .ok ⟨none, moved⟩) :
    firstMatch nameOf attempt (before ++ rs) = firstMatch nameOf attempt rs := by
  induction before with
  | nil => rfl
  | cons r before ih =>
    obtain ⟨moved, hr⟩ := h r List.mem_cons_self
    rw [List.cons_append, firstMatch, hr]
    exact ih fun r' hr' => h r' (List.mem_cons_of_mem _ hr')

lemma firstMatch_cons {r : ρ} {rs : List ρ} {token : α} {moved : Nat}
    (h : attempt r = .ok ⟨some token, moved⟩) :
    firstMatch nameOf attempt (r :: rs) = .ok (some ⟨nameOf r, token, moved⟩) := by
  rw [firstMatch, h]

variable {next : Cursor → Except Fault (Option (Match α))} {cur : Cursor}

lemma readAll_nil (hrest : cur.rest = []) : readAll next cur = ⟨[], none⟩ := by
  rw [readAll, dif_pos hrest]

lemma readAll_cons {m : Match α} (hrest : cur.rest ≠ []) (hm : next cur = .ok (some m))
    (hpos : 0 < m.length) :
    (readAll next cur).tokens = m.token :: (readAll next (cur.drop m.length)).tokens := by
  rw [readAll, dif_neg hrest, hm]
  simp only [dif_neg hpos.ne']

/-- A reading whose first token takes everything has no other token. -/
lemma readAll_alone {rule : String} {token : α} (hrest : cur.rest ≠ [])
    (h : next cur = .ok (some ⟨rule, token, cur.rest.length⟩)) :
    readAll next cur = ⟨[token], none⟩ := by
  have hlength : cur.rest.length ≠ 0 := by simpa using hrest
  have hend : (cur.drop cur.rest.length).rest = [] := by simp [Cursor.drop]
  rw [readAll, dif_neg hrest, h]
  simp only [dif_neg hlength]
  rw [readAll, dif_pos hend]

end Step

lemma Cursor.spanOf_ofText (text : Text) (origin : Point) :
    (Cursor.ofText text origin).spanOf text.length = ⟨origin, origin.advance text⟩ := by
  simp [Cursor.spanOf, Cursor.drop, Cursor.ofText]

/-- The inlines of a text are the tokens of the steps from its start. -/
lemma readInlines_eq_ok {rules : RuleSet} (hrules : rules.IsStandard) (hhas : rules.HasText)
    (defs : Definitions) (scope : Scope) (text : Text) (origin : Point) :
    readInlines rules defs scope text origin =
      .ok (readAll (nextInline rules defs
        (if scope.canNest then some (readInlines rules defs) else none) scope.toInline)
        (Cursor.ofText text origin)).tokens := by
  obtain ⟨ts, hts⟩ := readInlines_isTotal hrules hhas defs scope text origin
  rw [hts]
  rw [readInlines_isReading rules defs scope] at hts
  rw [(Run.tokens_of_toExcept hts).2]

/-! ## The construct that is recognised -/

section Recognized

variable {rules : RuleSet} {scope : Scope} {cur : Cursor}

/-- Where every rule in front of a construct declines, the token is what the construct finds. -/
lemma nextBlock_of_declined {before after : List BlockRule} {c : BlockConstruct}
    (hrules : rules.block = before ++ .standard c :: after) {nest : Option BlockReader}
    {found : Found Block.Body}
    (hbefore : ∀ r ∈ before, ∃ moved, r.attempt nest scope cur = .ok ⟨none, moved⟩)
    (hc : c.recognize nest scope cur = .ok (some found)) :
    nextBlock rules nest scope cur =
      .ok (some ⟨c.name, .ofBody ⟨c.name, cur.spanOf found.length⟩ found.value, found.length⟩) := by
  have hattempt : BlockRule.attempt nest scope cur (.standard c) =
      .ok ⟨some (.ofBody ⟨c.name, cur.spanOf found.length⟩ found.value), found.length⟩ := by
    simp only [BlockRule.attempt, hc]
  rw [nextBlock, hrules, firstMatch_append hbefore, firstMatch_cons hattempt]
  rfl

lemma nextInline_of_declined {before after : List InlineConstruct} {c : InlineConstruct}
    (hrules : rules.inline = (before ++ c :: after).map .standard) {defs : Definitions}
    {nest : Option InlineReader} {found : Found Inline.Body}
    (hbefore : ∀ d ∈ before, d.recognize defs nest scope cur = .ok none)
    (hc : c.recognize defs nest scope cur = .ok (some found)) :
    nextInline rules defs nest scope cur =
      .ok (some ⟨c.name, .ofBody ⟨c.name, cur.spanOf found.length⟩ found.value, found.length⟩) := by
  have hdeclines : ∀ r ∈ before.map InlineRule.standard, ∃ moved,
      r.attempt defs nest scope cur = .ok ⟨none, moved⟩ := by
    rw [List.forall_mem_map]
    exact fun d hd => ⟨0, by rw [InlineRule.attempt, hbefore d hd]⟩
  have hattempt : InlineRule.attempt defs nest scope cur (.standard c) =
      .ok ⟨some (.ofBody ⟨c.name, cur.spanOf found.length⟩ found.value), found.length⟩ := by
    simp only [InlineRule.attempt, hc]
  rw [nextInline, hrules, List.map_append, List.map_cons, firstMatch_append hdeclines,
    firstMatch_cons hattempt]
  rfl

end Recognized

/-! ## Texts that are one token -/

section Single

variable {rules : RuleSet} {text : Text} {origin : Point}

/-- A text that one construct takes to its end, once every rule before it has declined, is read as
the one block of this construct. -/
lemma readBlocks_single {scope : Scope} {before after : List BlockRule} {c : BlockConstruct}
    {body : Block.Body} (hrules : rules.block = before ++ .standard c :: after)
    (hne : text ≠ []) (hbefore : ∀ r ∈ before, ∃ moved,
      r.attempt (if scope.canNest then some (readBlocks rules) else none) scope
        (Cursor.ofText text origin) = .ok ⟨none, moved⟩)
    (hc : c.recognize (if scope.canNest then some (readBlocks rules) else none) scope
      (Cursor.ofText text origin) = .ok (some ⟨text.length, body⟩)) :
    readBlocks rules scope text origin =
      .ok [.ofBody ⟨c.name, ⟨origin, origin.advance text⟩⟩ body] := by
  have hnext := nextBlock_of_declined hrules hbefore hc
  rw [Cursor.spanOf_ofText] at hnext
  have hscan : scanBlocks rules scope text origin =
      ⟨[.ofBody ⟨c.name, ⟨origin, origin.advance text⟩⟩ body], none⟩ := by
    rw [scanBlocks_isReading rules scope]
    exact readAll_alone hne hnext
  rw [readBlocks, BlockReader.ofRun, hscan]
  rfl

/-- A text that one construct takes to its end, once every construct before it is not recognised, is
read as the one token of this construct. -/
lemma readInlines_single {before after : List InlineConstruct} {c : InlineConstruct}
    {body : Inline.Body} (hrules : rules.inline = (before ++ c :: after).map .standard)
    {defs : Definitions} (scope : Scope) (hne : text ≠ [])
    (hbefore : ∀ d ∈ before, ∀ nest scope,
      d.recognize defs nest scope (Cursor.ofText text origin) = .ok none)
    (hc : ∀ nest scope, c.recognize defs nest scope (Cursor.ofText text origin) =
      .ok (some ⟨text.length, body⟩)) :
    readInlines rules defs scope text origin =
      .ok [.ofBody ⟨c.name, ⟨origin, origin.advance text⟩⟩ body] := by
  have hnext := nextInline_of_declined hrules
    (fun d hd => hbefore d hd (if scope.canNest then some (readInlines rules defs) else none)
      scope.toInline) (hc _ _)
  rw [Cursor.spanOf_ofText] at hnext
  rw [readInlines_isReading rules defs scope, runInlines, readAll_alone hne hnext]
  rfl

end Single

end Docmark
