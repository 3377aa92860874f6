import Mathlib
import Docmark.Proofs.Reading.Agreement

/-!
# Rules that decline

A rule that declines may have moved the cursor by any number of characters; the cursor goes back to
where the rule began before the next one is tried (`tryInTurn`), which is why a choice can be made
with every rule at the same cursor (`tryInTurn_eq`).  So a rule that declines at every cursor leaves
no trace: it may be put into a rule set anywhere, among the rules for blocks and among those for
inlines, and every reading, also one of nested content or of what was left to the second pass, stays
what it was, with the fault that ends it if there is one.

## Main results

* `tryInTurn_eq` — rules that move one cursor choose as rules that each get a cursor of their own.
* `firstMatch_interspersed` — one step: the choice among rules that are interspersed with others.
* `scanBlocks_interspersed`, `readInlines_interspersed` — whole readings, at every level.
* `declining_rules_leave_no_trace` — the same for each step and for documents.
-/

namespace Docmark

/-! ## One cursor for all rules -/

section Cursor

variable {ρ α : Type} {nameOf : ρ → String} {attempt : ρ → Cursor → Except Fault (Attempt α)}

/-- Tries rules in order on one cursor, which each of them moves.  The cursor goes back to where a
rule began if the rule declines, and stays where it is if the rule yields a token. -/
def tryInTurn (nameOf : ρ → String) (attempt : ρ → Cursor → Except Fault (Attempt α)) :
    List ρ → StateT Cursor (Except Fault) (Option (Match α))
  | [] => pure none
  | r :: rs => do
    let checkpoint ← get
    let tried ← attempt r checkpoint
    set (checkpoint.drop tried.moved)
    match tried.token with
    | some token => pure (some ⟨nameOf r, token, tried.moved⟩)
    | none => do
      set checkpoint
      tryInTurn nameOf attempt rs

lemma tryInTurn_cons (r : ρ) (rs : List ρ) (cur : Cursor) :
    tryInTurn nameOf attempt (r :: rs) cur = match attempt r cur with
      | .error e => .error e
      | .ok ⟨some token, moved⟩ => .ok (some ⟨nameOf r, token, moved⟩, cur.drop moved)
      | .ok ⟨none, _⟩ => tryInTurn nameOf attempt rs cur := by
  have hrun : tryInTurn nameOf attempt (r :: rs) cur = (attempt r cur >>= fun tried =>
      (match tried.token with
        | some token => pure (some ⟨nameOf r, token, tried.moved⟩)
        | none => set cur >>= fun _ => tryInTurn nameOf attempt rs :
          StateT Cursor (Except Fault) (Option (Match α))) (cur.drop tried.moved)) := by
    cases htried : attempt r cur <;>
      simp only [tryInTurn, bind, StateT.bind, get, getThe, MonadStateOf.get, StateT.get, pure,
        Except.pure, Except.bind, liftM, monadLift, MonadLift.monadLift, StateT.lift, htried, set,
        StateT.set]
  rw [hrun]
  cases attempt r cur with
  | error e => rfl
  | ok tried =>
    obtain ⟨_ | token, moved⟩ := tried <;> rfl

/-- **Rules that share a cursor choose as rules that do not**, and leave the cursor behind what was
chosen, or where it was. -/
theorem tryInTurn_eq (rs : List ρ) (cur : Cursor) :
    tryInTurn nameOf attempt rs cur =
      (firstMatch nameOf (attempt · cur) rs).map fun m =>
        (m, cur.drop (m.elim 0 Match.length)) := by
  induction rs with
  | nil =>
    have hstay : cur.drop 0 = cur := by simp [Cursor.drop]
    rw [firstMatch, Except.map, Option.elim, hstay]
    rfl
  | cons r rs ih =>
    rw [tryInTurn_cons, firstMatch]
    rcases attempt r cur with e | ⟨_ | token, moved⟩
    · rfl
    · exact ih
    · rfl

end Cursor

/-! ## Lists of rules -/

section Interspersed

variable {ρ α : Type} {D : ρ → Prop} {rs rs' : List ρ}

/-- The second list is the first one, interspersed with further rules of a certain kind. -/
inductive Interspersed (D : ρ → Prop) : List ρ → List ρ → Prop
  | nil : Interspersed D [] []
  | keep (r : ρ) {rs rs' : List ρ} (h : Interspersed D rs rs') :
      Interspersed D (r :: rs) (r :: rs')
  | insert {r : ρ} {rs rs' : List ρ} (hr : D r) (h : Interspersed D rs rs') :
      Interspersed D rs (r :: rs')

lemma Interspersed.refl (D : ρ → Prop) (rs : List ρ) : Interspersed D rs rs := by
  induction rs with
  | nil => exact .nil
  | cons r rs ih => exact .keep r ih

/-- **One step.**  Rules that decline at a cursor make no difference to the choice there. -/
theorem firstMatch_interspersed {nameOf : ρ → String} {attempt : ρ → Except Fault (Attempt α)}
    (hD : ∀ r, D r → Declines attempt r) (h : Interspersed D rs rs') :
    firstMatch nameOf attempt rs' = firstMatch nameOf attempt rs := by
  have hchoice : ChooseAlike nameOf attempt attempt rs' rs := by
    induction h with
    | nil => exact .nil
    | keep r _ ih => exact .both rfl rfl ih
    | insert hr _ ih => exact .left (hD _ hr) ih
  exact hchoice.firstMatch_eq

/-- Rules that decline at a cursor make no difference to the cursor either. -/
lemma tryInTurn_interspersed {nameOf : ρ → String}
    {attempt : ρ → Cursor → Except Fault (Attempt α)} (cur : Cursor)
    (hD : ∀ r, D r → Declines (attempt · cur) r) (h : Interspersed D rs rs') :
    tryInTurn nameOf attempt rs' cur = tryInTurn nameOf attempt rs cur := by
  rw [tryInTurn_eq, tryInTurn_eq, firstMatch_interspersed hD h]

end Interspersed

/-- A rule that declines at every cursor, wherever it leaves its own. -/
def BlockRule.AlwaysDeclines (r : BlockRule) : Prop :=
  ∀ nest scope cur, Declines (BlockRule.attempt nest scope cur) r

/-- A rule that declines at every cursor, wherever it leaves its own. -/
def InlineRule.AlwaysDeclines (r : InlineRule) : Prop :=
  ∀ defs nest scope cur, Declines (InlineRule.attempt defs nest scope cur) r

/-- The second rule set is the first one, interspersed with rules that always decline. -/
structure RuleSet.Interspersed (rules rules' : RuleSet) : Prop where
  block : Docmark.Interspersed BlockRule.AlwaysDeclines rules.block rules'.block
  inline : Docmark.Interspersed InlineRule.AlwaysDeclines rules.inline rules'.inline

/-! ## Readings -/

section Readings

variable {rules rules' : RuleSet} (h : rules.Interspersed rules')

include h

lemma nextBlock_interspersed (nest : Option BlockReader) (scope : Scope) :
    nextBlock rules' nest scope = nextBlock rules nest scope := by
  funext cur
  exact firstMatch_interspersed (fun _ hr => hr nest scope cur) h.block

lemma nextInline_interspersed (defs : Definitions) (nest : Option InlineReader) (scope : Scope) :
    nextInline rules' defs nest scope = nextInline rules defs nest scope := by
  funext cur
  exact firstMatch_interspersed (fun _ hr => hr defs nest scope cur) h.inline

lemma runBlocks_interspersed (nest : Option BlockReader) :
    runBlocks rules' nest = runBlocks rules nest := by
  funext scope text origin
  rw [runBlocks, runBlocks, nextBlock_interspersed h]

/-- Blocks are read alike at every level, by induction on the levels that a text may open. -/
lemma blocksAt_interspersed (n : Nat) : blocksAt rules' n = blocksAt rules n := by
  induction n with
  | zero =>
    funext scope text origin
    rw [blocksAt, blocksAt, runBlocks_interspersed h]
  | succ n ih =>
    funext scope text origin
    rw [blocksAt, blocksAt, runBlocks_interspersed h, ih]

/-- The first pass yields the same blocks and the same fault. -/
lemma scanBlocks_interspersed : scanBlocks rules' = scanBlocks rules := by
  have hnest : nestedBlocks rules' = nestedBlocks rules := by
    funext scope
    simp only [nestedBlocks, blocksAt_interspersed h]
  funext scope text origin
  rw [scanBlocks, scanBlocks, hnest, runBlocks_interspersed h]

/-- Inlines are read alike at every level, so the second pass yields the same. -/
lemma readInlines_interspersed (defs : Definitions) :
    readInlines rules' defs = readInlines rules defs := by
  have hrun (nest : Option InlineReader) :
      runInlines rules' defs nest = runInlines rules defs nest := by
    funext scope text origin
    rw [runInlines, runInlines, nextInline_interspersed h]
  have hlevel (n : Nat) : inlinesAt rules' defs n = inlinesAt rules defs n := by
    induction n with
    | zero => exact hrun none
    | succ n ih => rw [inlinesAt, inlinesAt, ih, hrun]
  funext scope text origin
  rw [readInlines, readInlines, hlevel]

end Readings

/-- **Rules that decline leave no trace.**  Take a rule set and the same one interspersed with rules
that always decline, wherever these leave the cursor.  Tried in turn on one cursor, the rules for
blocks and those for inlines make the same choice and leave the cursor at the same point.  And every
text is read the same, in every scope and with every definition made before: there is the same tree,
or the same fault with the same rule, excerpt and point, and there are the same definitions
afterwards. -/
theorem declining_rules_leave_no_trace {rules rules' : RuleSet} (h : rules.Interspersed rules') :
    (∀ nest scope cur,
      tryInTurn BlockRule.name (fun r cur => r.attempt nest scope cur) rules'.block cur =
        tryInTurn BlockRule.name (fun r cur => r.attempt nest scope cur) rules.block cur) ∧
    (∀ defs nest scope cur,
      tryInTurn InlineRule.name (fun r cur => r.attempt defs nest scope cur) rules'.inline cur =
        tryInTurn InlineRule.name (fun r cur => r.attempt defs nest scope cur) rules.inline cur) ∧
    ∀ defs scope text, readWith rules' defs scope text = readWith rules defs scope text := by
  refine ⟨fun nest scope cur => ?_, fun defs nest scope cur => ?_, fun defs scope text => ?_⟩
  · exact tryInTurn_interspersed cur (fun _ hr => hr nest scope cur) h.block
  · exact tryInTurn_interspersed cur (fun _ hr => hr defs nest scope cur) h.inline
  · simp only [readWith, scanBlocks_interspersed h, readInlines_interspersed h]

/-- Rules that run to the end of their input and then decline, in front of all block rules of a
dialect and behind its first inline rule, where a list in a quotation is read. -/
theorem declining_rules_leave_no_trace_dfm :
    let block : BlockRule := .custom "sneaky" fun _ cur => ⟨none, cur.rest.length⟩
    let inline : InlineRule := .custom "sneaky" fun _ cur => ⟨none, cur.rest.length⟩
    let rules := Flavor.dfm.rules
    let rules' : RuleSet :=
      ⟨block :: rules.block, rules.inline.take 1 ++ inline :: rules.inline.drop 1⟩
    rules.Interspersed rules' ∧
      readWith rules' [] Scope.document "> *a*\n> - b\n".toList =
        readWith rules [] Scope.document "> *a*\n> - b\n".toList := by
  intro block inline rules rules'
  have h : rules.Interspersed rules' :=
    { block := .insert (fun _ _ cur => ⟨cur.rest.length, rfl⟩) (.refl _ _)
      inline := .keep _ (.insert (fun _ _ _ cur => ⟨cur.rest.length, rfl⟩) (.refl _ _)) }
  exact ⟨h, (declining_rules_leave_no_trace h).2.2 [] Scope.document _⟩

end Docmark
