import Mathlib
import Docmark.Proofs.Reading.Passes
import Docmark.Proofs.Rewrite.HeadingIds

/-!
# Headings are read without ids

No construct of the language makes a heading: a heading waits for the second pass, which completes
it without an id.  So in a tree that was read no heading has one, unless a rule that was added to
the language has put it there.

## Main results

* `readWith_lacksIds` — no heading of a document that was read has an id.
-/

namespace Docmark

/-- A rule set of which no added rule makes a heading that has an id already. -/
def RuleSet.LeavesIds (rules : RuleSet) : Prop :=
  ∀ name attempt, .custom name attempt ∈ rules.block →
    ∀ scope cur b, (attempt scope cur).token = some b → b.LacksIds

lemma RuleSet.IsStandard.leavesIds {rules : RuleSet} (hrules : rules.IsStandard) :
    rules.LeavesIds := by
  intro name attempt hr
  obtain ⟨c, hc⟩ := hrules.block _ hr
  cases hc

namespace Block

lemma lacksIds_node {h : Head} {f : Frame} {bs : List Block} :
    (Block.node h f bs).LacksIds ↔ ∀ b ∈ bs, b.LacksIds := by
  rw [LacksIds, forall_nodes_node]
  exact and_iff_right (by simp [headingId?])

lemma lacksIds_leaf {h : Head} {c : Leaf} (hc : c.kind ≠ .heading) : (Block.leaf h c).LacksIds := by
  rw [LacksIds, nodes_leaf, List.forall_mem_singleton]
  cases c with
  | heading => exact absurd rfl hc
  | _ => simp [headingId?]

end Block

/-! ## The first pass -/

section Scan

variable {scope : Scope} {cur : Cursor}

lemma BlockConstruct.made_ne_heading (c : BlockConstruct) : c.made ≠ .heading := by
  cases c <;> simp [made]

/-- What a construct makes lacks ids, if what is read inside it does. -/
lemma BlockConstruct.recognize_lacksIds {nest : Option BlockReader}
    (hnest : ∀ read, nest = some read → BlockReader.Yields read fun _ b => b.LacksIds)
    {c : BlockConstruct} {m : Found Block.Body} {hd : Head}
    (h : c.recognize nest scope cur = .ok (some m)) : (Block.ofBody hd m.value).LacksIds := by
  rcases c.recognize_cases h with
    ⟨read, hread, hquote⟩ | ⟨read, hread, hlist⟩ | ⟨f, hvalue, -, -⟩ | ⟨l, hvalue, -⟩
  · obtain ⟨-, bs, hbs, rfl⟩ := exists_of_blockquote? hquote
    refine Block.lacksIds_node.2 ?_
    exact groupCallouts_nodes (fun _ _ _ _ _ _ => by simp [Block.headingId?])
      (hnest read hread _ _ _ _ hbs)
  · obtain ⟨marker, scan, items, -, hitems, hvalue⟩ := exists_of_list? hlist
    rw [hvalue]
    refine Block.lacksIds_node.2 fun i hi => ?_
    obtain ⟨item, -, hitem⟩ := exists_of_mem_forall₂ hitems i hi
    obtain ⟨hd', bs, hbs, rfl⟩ := exists_of_readItem hitem
    exact Block.lacksIds_node.2 (hnest read hread _ _ _ _ hbs)
  · rw [hvalue]
    exact Block.lacksIds_node.2 (List.forall_mem_nil _)
  · have hkind : (Block.ofBody hd m.value).kind = c.made := recognize_kind h
    rw [hvalue] at hkind ⊢
    exact Block.lacksIds_leaf fun hl => c.made_ne_heading (hkind.symm.trans hl)

variable {rules : RuleSet} (hrules : rules.LeavesIds)

include hrules

/-- One step of the first pass. -/
lemma nextBlock_lacksIds {nest : Option BlockReader}
    (hnest : ∀ read, nest = some read → BlockReader.Yields read fun _ b => b.LacksIds)
    {m : Match Block} (h : nextBlock rules nest scope cur = .ok (some m)) : m.token.LacksIds := by
  obtain ⟨r, hr, hattempt, -⟩ := firstMatch_some h
  cases r with
  | custom name attempt =>
    refine hrules name attempt hr scope cur m.token ?_
    rw [Except.ok.inj hattempt]
  | standard c =>
    obtain ⟨found, hfound, htoken, -⟩ := BlockRule.exists_of_attempt hattempt
    rw [htoken]
    exact BlockConstruct.recognize_lacksIds hnest hfound

lemma runBlocks_lacksIds {nest : Option BlockReader}
    (hnest : ∀ read, nest = some read → BlockReader.Yields read fun _ b => b.LacksIds)
    (text : Text) (origin : Point) :
    ∀ b ∈ (runBlocks rules nest scope text origin).tokens, b.LacksIds :=
  readAll_tokens (fun _ _ _ hm => nextBlock_lacksIds hrules hnest hm) _

/-- The first pass makes no heading with an id, at any level. -/
lemma scanBlocks_lacksIds (text : Text) (origin : Point) :
    ∀ b ∈ (scanBlocks rules scope text origin).tokens, b.LacksIds := by
  refine runBlocks_lacksIds hrules (fun read hread => ?_) text origin
  refine nestedBlocks_induction (P := fun read => BlockReader.Yields read fun _ b => b.LacksIds)
    (fun nest hnest scope text origin bs hbs => ?_) hread
  obtain ⟨-, rfl⟩ := Run.tokens_of_toExcept hbs
  exact runBlocks_lacksIds hrules hnest text origin

end Scan

/-! ## The second pass -/

/-- What a pending block becomes has no id. -/
lemma Pending.complete_headingId? {read : InlineReader} {rule : String} {p : Pending} {h : Head}
    {c : Block.Leaf} (hc : p.complete read rule = .ok c) :
    ∀ id ∈ (Block.leaf h c).headingId?, id = none := by
  obtain ⟨form, source, origin, scope⟩ := p
  cases Pending.becomes_of_complete hc <;> simp [Block.headingId?]

/-- The second pass makes headings without ids, and changes no others. -/
lemma Block.resolve_lacksIds {read : InlineReader} {b b' : Block} (h : b.resolve read = .ok b')
    (hb : b.LacksIds) : b'.LacksIds := by
  intro n' hn'
  obtain ⟨above, hn'⟩ := mem_nodes_iff.1 hn'
  obtain ⟨n, hn, hres⟩ := hn'.of_resolve h
  cases n' with
  | node => simp [headingId?]
  | leaf hd c =>
    obtain ⟨p, -, hc⟩ | ⟨rfl, -⟩ := exists_of_resolve_leaf hres
    · exact Pending.complete_headingId? hc
    · exact hb _ (mem_nodes_iff.2 ⟨above, hn⟩)

/-- **Headings are read without ids.**  No heading of a document that was read has an id. -/
theorem readWith_lacksIds {rules : RuleSet} (hrules : rules.LeavesIds) {defs : Definitions}
    {scope : Scope} {text : Text} {root : Block}
    (h : (readWith rules defs scope text).1 = .ok root) : root.LacksIds := by
  obtain ⟨bs, hbs, hres⟩ := exists_of_readWith h
  refine Block.resolve_lacksIds hres (Block.lacksIds_node.2 ?_)
  rw [← hbs]
  exact scanBlocks_lacksIds hrules text Point.start

end Docmark
