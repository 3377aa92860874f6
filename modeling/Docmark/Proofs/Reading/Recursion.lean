import Mathlib
import Docmark.Proofs.Reading.Step

/-!
# The recursion of a reading

Content inside a container is read like the document itself, in a scope one level deeper, and only
where one more level may be opened.  `Docmark.Reader` counts the levels that are left instead, so
that the recursion is one on a number.  Here both are shown to be the same: a reader for `n` levels
reads a scope with `n` levels left as a document is read in that scope, and whatever satisfies the
recursion is that reading.

## Main results

* `isBlockReading_iff`, `isInlineReading_iff` — the recursion has exactly one solution.
-/

namespace Docmark

/-! ## Levels that are left -/

namespace Scope

lemma canNest_iff {s : Scope} : s.canNest = true ↔ 0 < s.budget := by
  simp only [canNest, budget, decide_eq_true_eq]
  omega

lemma canNest_eq_false (s : Scope) (h : s.budget = 0) : s.canNest = false := by
  simpa [h] using canNest_iff (s := s)

lemma budget_of_depth {s inner : Scope} (h : inner.depth = s.depth + 1) :
    inner.budget = s.budget - 1 := by
  simp only [budget, h]
  omega

end Scope

/-- Two readers that agree one level below a scope. -/
def AgreeBelow {α : Type} (scope : Scope) (read read' : Scope → α) : Prop :=
  ∀ inner, inner.depth = scope.depth + 1 → read inner = read' inner

/-- A reading that asks for content one level further down only, and only where one more level may
be opened, is settled by the levels that are left. -/
lemma eq_of_recursion {α : Type} (step : Option (Scope → α) → Scope → α)
    (hstep : ∀ scope read read', AgreeBelow scope read read' →
      step (some read) scope = step (some read') scope)
    {read read' : Scope → α}
    (h : ∀ scope, read scope = step (if scope.canNest then some read else none) scope)
    (h' : ∀ scope, read' scope = step (if scope.canNest then some read' else none) scope) :
    read = read' := by
  have hlevels : ∀ n (scope : Scope), scope.budget = n → read scope = read' scope := by
    intro n
    induction n with
    | zero =>
      intro scope hbudget
      have hnest : scope.canNest = false := scope.canNest_eq_false hbudget
      rw [h, h', hnest]
      rfl
    | succ n ih =>
      intro scope hbudget
      have hnest : scope.canNest = true := Scope.canNest_iff.2 (by omega)
      rw [h, h', if_pos hnest, if_pos hnest]
      refine hstep scope read read' fun inner hinner => ih inner ?_
      rw [Scope.budget_of_depth hinner, hbudget]
      rfl
  exact funext fun scope => hlevels scope.budget scope rfl

/-! ## Blocks -/

/-- The reader of nested content that a reading of blocks is. -/
def BlockReader.ofRun (run : Scope → Text → Point → Run Block) : BlockReader :=
  fun scope text origin => (run scope text origin).toExcept

/-- Reads the blocks of a text in a scope. -/
def readBlocks (rules : RuleSet) : BlockReader := .ofRun (scanBlocks rules)

/-- A reading of blocks that reads nested content by itself, as long as one more level may be
opened. -/
def IsBlockReading (rules : RuleSet) (run : Scope → Text → Point → Run Block) : Prop :=
  ∀ scope, run scope =
    runBlocks rules (if scope.canNest then some (.ofRun run) else none) scope

section Blocks

variable {rules : RuleSet} {scope : Scope}

/-- A construct asks its reader for nothing but content one level further down. -/
lemma BlockConstruct.recognize_congr {read read' : BlockReader} (h : AgreeBelow scope read read')
    (cur : Cursor) (c : BlockConstruct) :
    c.recognize (some read) scope cur = c.recognize (some read') scope cur := by
  cases c with
  | blockquote => simp only [recognize, blockquote?, h (scope.nested Scope.isBlockQuote) rfl]
  | list =>
    have hitem : readItem read scope cur = readItem read' scope cur := by
      funext loose item
      simp only [readItem, h (scope.nested Scope.isInList) rfl]
    simp only [recognize, list?, hitem]
  | _ => rfl

lemma runBlocks_congr {read read' : BlockReader} (h : AgreeBelow scope read read') :
    runBlocks rules (some read) scope = runBlocks rules (some read') scope := by
  have hattempt (cur : Cursor) :
      BlockRule.attempt (some read) scope cur = BlockRule.attempt (some read') scope cur := by
    funext r
    cases r with
    | standard c => simp only [BlockRule.attempt, BlockConstruct.recognize_congr h cur c]
    | custom name f => rfl
  have hnext : nextBlock rules (some read) scope = nextBlock rules (some read') scope := by
    funext cur
    simp only [nextBlock, hattempt]
  funext text origin
  simp only [runBlocks, hnext]

/-- A reader for as many levels as a scope has left reads it as a document is read. -/
lemma blocksAt_budget (rules : RuleSet) (scope : Scope) :
    blocksAt rules scope.budget scope = readBlocks rules scope := by
  funext text origin
  cases hbudget : scope.budget with
  | zero => simp only [blocksAt, readBlocks, BlockReader.ofRun, scanBlocks, nestedBlocks, hbudget]
  | succ n => simp only [blocksAt, readBlocks, BlockReader.ofRun, scanBlocks, nestedBlocks, hbudget]

lemma scanBlocks_isReading (rules : RuleSet) : IsBlockReading rules (scanBlocks rules) := by
  intro scope
  have hscan : scanBlocks rules scope = runBlocks rules (nestedBlocks rules scope) scope := rfl
  rw [hscan]
  cases hbudget : scope.budget with
  | zero =>
    have hnest : scope.canNest = false := scope.canNest_eq_false hbudget
    simp [nestedBlocks, hbudget, hnest]
  | succ n =>
    have hnest : scope.canNest = true := Scope.canNest_iff.2 (by omega)
    simp only [nestedBlocks, hbudget, hnest, if_true]
    refine runBlocks_congr fun inner hinner => ?_
    have hlevels : inner.budget = n := by rw [Scope.budget_of_depth hinner, hbudget]; rfl
    rw [← hlevels, blocksAt_budget]
    rfl

/-- **Reading blocks is a recursion that ends.**  The first pass over a text is the one reading that
reads nested content by itself: each level takes one from what the scope has left. -/
theorem isBlockReading_iff {run : Scope → Text → Point → Run Block} :
    IsBlockReading rules run ↔ run = scanBlocks rules := by
  constructor
  · intro h
    refine eq_of_recursion (fun nest => runBlocks rules (nest.map .ofRun)) ?_ ?_ ?_
    · intro scope read read' hagree
      have hbelow : AgreeBelow scope (BlockReader.ofRun read) (BlockReader.ofRun read') := by
        intro inner hinner
        funext text origin
        simp only [BlockReader.ofRun, hagree inner hinner]
      exact runBlocks_congr hbelow
    · intro scope
      rw [h scope]
      split <;> rfl
    · intro scope
      rw [scanBlocks_isReading rules scope]
      split <;> rfl
  · rintro rfl
    exact scanBlocks_isReading rules

end Blocks

/-! ## Inlines -/

/-- A reading of inlines that reads nested content by itself, as long as one more level may be
opened. -/
def IsInlineReading (rules : RuleSet) (defs : Definitions) (read : InlineReader) : Prop :=
  ∀ scope, read scope = runInlines rules defs (if scope.canNest then some read else none) scope

section Inlines

variable {rules : RuleSet} {defs : Definitions} {scope : Scope}

lemma linkVia_congr {read read' : InlineReader} (h : AgreeBelow scope read read') (cur : Cursor)
    (target : Label → Text → Option (Found Destination)) :
    linkVia target (some read) scope cur = linkVia target (some read') scope cur := by
  simp only [linkVia, Label.toInline, Label.allowed, Option.isSome_some, h scope.insideLink rfl]

lemma framed_congr {read read' : InlineReader} (h : AgreeBelow scope read read') (cur : Cursor)
    (frame : Inline.Frame) (size : Nat) (content : Option Text) :
    framed frame size content (some read) scope cur =
      framed frame size content (some read') scope cur := by
  cases content with
  | none => rfl
  | some content => simp only [framed, h scope.descend rfl]

/-- A construct asks its reader for nothing but content one level further down. -/
lemma InlineConstruct.recognize_congr {read read' : InlineReader}
    (h : AgreeBelow scope read read') (cur : Cursor) (c : InlineConstruct) :
    c.recognize defs (some read) scope cur = c.recognize defs (some read') scope cur := by
  cases c with
  | link => exact linkVia_congr h cur _
  | refLink => exact linkVia_congr h cur _
  | shortLink => exact linkVia_congr h cur _
  | strong => exact framed_congr h cur _ _ _
  | em => exact framed_congr h cur _ _ _
  | del => exact framed_congr h cur _ _ _
  | _ => rfl

lemma runInlines_congr {read read' : InlineReader} (h : AgreeBelow scope read read') :
    runInlines rules defs (some read) scope = runInlines rules defs (some read') scope := by
  -- the scope in which inlines are read is as deep as the one of their block
  have hbelow : AgreeBelow scope.toInline read read' := h
  have hattempt (cur : Cursor) : InlineRule.attempt defs (some read) scope.toInline cur =
      InlineRule.attempt defs (some read') scope.toInline cur := by
    funext r
    cases r with
    | standard c =>
      simp only [InlineRule.attempt, InlineConstruct.recognize_congr hbelow]
    | custom name f => rfl
  have hnext : nextInline rules defs (some read) scope.toInline =
      nextInline rules defs (some read') scope.toInline := by
    funext cur
    simp only [nextInline, hattempt]
  funext text origin
  simp only [runInlines, hnext]

lemma readInlines_isReading (rules : RuleSet) (defs : Definitions) :
    IsInlineReading rules defs (readInlines rules defs) := by
  intro scope
  have hread : readInlines rules defs scope = inlinesAt rules defs scope.budget scope := rfl
  rw [hread]
  cases hbudget : scope.budget with
  | zero =>
    have hnest : scope.canNest = false := scope.canNest_eq_false hbudget
    simp [inlinesAt, hnest]
  | succ n =>
    have hnest : scope.canNest = true := Scope.canNest_iff.2 (by omega)
    simp only [inlinesAt, hnest, if_true]
    refine runInlines_congr fun inner hinner => ?_
    have hlevels : inner.budget = n := by rw [Scope.budget_of_depth hinner, hbudget]; rfl
    rw [← hlevels]
    rfl

/-- **Reading inlines is a recursion that ends.**  It is the one reading that reads nested content
by itself. -/
theorem isInlineReading_iff {read : InlineReader} :
    IsInlineReading rules defs read ↔ read = readInlines rules defs := by
  constructor
  · intro h
    exact eq_of_recursion (runInlines rules defs) (fun _ _ _ => runInlines_congr) h
      (readInlines_isReading rules defs)
  · rintro rfl
    exact readInlines_isReading rules defs

end Inlines

/-! ## Induction over levels -/

/-- A reader for the content of a scope, which may be had as long as one more level may be opened:
everything that it yields one level further down has a property. -/
def YieldsBelow {α : Type} (scope : Scope) (read : Scope → Text → Point → Except Fault (List α))
    (P : Scope → α → Prop) : Prop :=
  scope.canNest = true ∧ ∀ inner, inner.depth = scope.depth + 1 →
    ∀ text origin xs, read inner text origin = .ok xs → ∀ x ∈ xs, P inner x

section Levels

variable {rules : RuleSet} (hrules : rules.IsStandard)

include hrules

/-- A property that every construct's token has in a scope, if everything read one level further
down has it, holds of all blocks of the first pass. -/
theorem scanBlocks_byLevels {P : Scope → Block → Prop}
    (step : ∀ scope (nest : Option BlockReader),
      (∀ read, nest = some read → YieldsBelow scope read P) →
      ∀ (cur : Cursor) (c : BlockConstruct) (found : Found Block.Body),
        .standard c ∈ rules.block → c.recognize nest scope cur = .ok (some found) →
          P scope (.ofBody ⟨c.name, cur.spanOf found.length⟩ found.value))
    (scope : Scope) (text : Text) (origin : Point) :
    ∀ b ∈ (scanBlocks rules scope text origin).tokens, P scope b := by
  induction hbudget : scope.budget generalizing scope text origin with
  | zero =>
    have hnest : scope.canNest = false := scope.canNest_eq_false hbudget
    rw [scanBlocks_isReading rules scope, hnest]
    exact runBlocks_tokens hrules (step scope none (by simp)) text origin
  | succ n ih =>
    have hnest : scope.canNest = true := Scope.canNest_iff.2 (by omega)
    rw [scanBlocks_isReading rules scope, hnest]
    refine runBlocks_tokens hrules (step scope _ ?_) text origin
    rintro read ⟨⟩
    refine ⟨hnest, fun inner hinner text origin bs hbs => ?_⟩
    obtain ⟨-, rfl⟩ := Run.tokens_of_toExcept hbs
    exact ih inner text origin (by rw [Scope.budget_of_depth hinner, hbudget]; rfl)

/-- A property that every construct's token has in a scope, if everything read one level further
down has it, holds of all inline tokens. -/
theorem readInlines_byLevels {defs : Definitions} {P : Scope → Inline → Prop}
    (step : ∀ scope (nest : Option InlineReader),
      (∀ read, nest = some read → YieldsBelow scope read P) →
      ∀ (cur : Cursor) (c : InlineConstruct) (found : Found Inline.Body),
        .standard c ∈ rules.inline → c.recognize defs nest scope.toInline cur = .ok (some found) →
          P scope (.ofBody ⟨c.name, cur.spanOf found.length⟩ found.value)) :
    InlineReader.Yields (readInlines rules defs) P := by
  intro scope text origin ts hts
  induction hbudget : scope.budget generalizing scope text origin ts with
  | zero =>
    have hnest : scope.canNest = false := scope.canNest_eq_false hbudget
    rw [readInlines_isReading rules defs scope, hnest] at hts
    exact runInlines_tokens hrules (step scope none (by simp)) hts
  | succ n ih =>
    have hnest : scope.canNest = true := Scope.canNest_iff.2 (by omega)
    rw [readInlines_isReading rules defs scope, hnest] at hts
    refine runInlines_tokens hrules (step scope _ ?_) hts
    rintro read ⟨⟩
    refine ⟨hnest, fun inner hinner text origin ts hts => ?_⟩
    exact ih inner text origin ts hts (by rw [Scope.budget_of_depth hinner, hbudget]; rfl)

end Levels

end Docmark
