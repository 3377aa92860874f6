import Mathlib
import Docmark.Proofs.Container.Content
import Docmark.Proofs.Reading.Recursion
import Docmark.Proofs.Reading.Total
import Docmark.Proofs.Token.Branch

/-!
# Nesting is bounded

Block quotes, lists, links and emphasis open a level each, and a scope has a fixed number of levels
left.  Blocks and the inline spans inside them take from the same number: a block that waits for the
second pass keeps the scope that it stood in, and its inlines are read with what that scope has
left.

`Block.Within n` says of a tree of the first pass that it opens at most `n` levels, those included
that its pending blocks may still open.

## Main results

* `nesting_bounded` — no branch of a tree opens more levels than its scope had left, and reading is
  a recursion that ends because each level takes one of them.
-/

namespace Docmark

/-! ## What opens a level -/

/-- Whether blocks of a kind open a level for their content. -/
def BlockTag.opensLevel (k : BlockTag) : Bool := k == .blockquote || k == .list

/-- Whether inline tokens of a kind open a level for their content. -/
def InlineTag.opensLevel (k : InlineTag) : Bool :=
  k == .link || k == .strong || k == .em || k == .del

/-- Whether a token opens a level for its content. -/
def Token.opensLevel : Token → Bool
  | .block b => b.kind.opensLevel
  | .inline t => t.kind.opensLevel

/-- Counts what opens a level. -/
def Weight.nesting : Weight where
  block k := k.opensLevel.toNat
  inline k := k.opensLevel.toNat

@[simp] lemma Weight.nesting_blockLeaf (c : Block.Leaf) : Weight.nesting.block c.kind = 0 := by
  cases c <;> rfl

@[simp] lemma Weight.nesting_inlineLeaf (c : Inline.Leaf) : Weight.nesting.inline c.kind = 0 := by
  cases c <;> rfl

lemma Weight.nesting_inlineFrame_le (f : Inline.Frame) : Weight.nesting.inline f.kind ≤ 1 :=
  Bool.toNat_le _

/-- The tokens on a branch that open a level are as many as the branch weighs. -/
lemma countP_opensLevel (branch : List Token) :
    branch.countP Token.opensLevel = (branch.map Weight.nesting.ofToken).sum :=
  Weight.countP_eq_sum (by rintro (b | t) <;> rfl) branch

/-! ## Inlines -/

/-- An inline token opens no more levels than the scope has left in which it is read. -/
def Inline.FitsIn (scope : Scope) (t : Inline) : Prop := t.height .nesting ≤ scope.budget

section Inlines

variable {defs : Definitions} {nest : Option InlineReader} {scope : Scope} {cur : Cursor}
  {m : Found Inline.Body} {head : Head}

lemma fitsIn_leaf (c : Inline.Leaf) : (Inline.ofBody head (.leaf c)).FitsIn scope := by
  simp [Inline.FitsIn, Inline.ofBody]

/-- A frame takes one level, and its content fits into what is left behind that. -/
lemma fitsIn_node {f : Inline.Frame} {inner : Scope} {ts : List Inline}
    (hnest : scope.canNest = true) (hinner : inner.depth = scope.depth + 1)
    (hts : ∀ t ∈ ts, t.FitsIn inner) : (Inline.ofBody head (.node f ts)).FitsIn scope := by
  have hpos := Scope.canNest_iff.1 hnest
  have hbudget := Scope.budget_of_depth hinner
  have hframe := Weight.nesting_inlineFrame_le f
  have hheight : Inline.heightAll .nesting ts ≤ inner.budget := Inline.heightAll_le.2 hts
  simp only [Inline.FitsIn, Inline.ofBody, Inline.height_node]
  omega

variable (hnest : ∀ read, nest = some read → YieldsBelow scope read Inline.FitsIn)

include hnest

lemma InlineConstruct.recognize_fitsIn {c : InlineConstruct}
    (h : c.recognize defs nest scope.toInline cur = .ok (some m)) :
    (Inline.ofBody head m.value).FitsIn scope := by
  rcases c.recognize_cases h with
    ⟨l, hvalue, -⟩ | ⟨target, -, hlink⟩ | ⟨frame, size, content, -, -, -, hframed⟩
  · rw [hvalue]
    exact fitsIn_leaf l
  · obtain ⟨l, d, -, -, rfl | ⟨read, ts, hread, -, hts, rfl⟩⟩ := exists_of_linkVia hlink
    · exact fitsIn_leaf _
    · obtain ⟨hcan, hbelow⟩ := hnest read hread
      exact fitsIn_node hcan rfl (hbelow _ rfl _ _ ts hts)
  · obtain ⟨read, text, ts, hread, -, hts, rfl⟩ := exists_of_framed hframed
    obtain ⟨hcan, hbelow⟩ := hnest read hread
    exact fitsIn_node hcan rfl (hbelow _ rfl text _ ts hts)

end Inlines

/-- Every inline token fits into the scope in which it is read. -/
lemma readInlines_fitsIn {rules : RuleSet} (hrules : rules.IsStandard) (defs : Definitions) :
    InlineReader.Yields (readInlines rules defs) Inline.FitsIn :=
  readInlines_byLevels hrules fun _ _ hnest _ _ _ _ h =>
    InlineConstruct.recognize_fitsIn hnest h

/-! ## The first pass -/

/-- A tree of the first pass opens at most `n` levels, those included that are left to its pending
blocks. -/
inductive Block.Within : Nat → Block → Prop
  | leaf {n : Nat} {h : Head} {c : Block.Leaf} (hinlines : c.inlines = [])
      (hpending : ∀ p, c = .pending p → p.scope.budget ≤ n) : Within n (.leaf h c)
  | node {n m : Nat} {h : Head} {f : Block.Frame} {bs : List Block}
      (hbs : ∀ b ∈ bs, Within m b) (hle : Weight.nesting.block f.kind + m ≤ n) :
      Within n (.node h f bs)

section Blocks

variable {scope : Scope} {cur : Cursor} {head : Head}

/-- A pending block keeps the scope in which it stands. -/
lemma BlockConstruct.recognize_scope {nest : Option BlockReader} {c : BlockConstruct}
    {m : Found Block.Body} {p : Pending} (h : c.recognize nest scope cur = .ok (some m))
    (hp : m.value = .leaf (.pending p)) : p.scope = scope := by
  have hkind : (Block.ofBody ⟨c.name, ⟨{}, {}⟩⟩ m.value).kind = c.made := recognize_kind h
  have hmade : c.made = .pending := by
    rw [← hkind, hp]
    rfl
  cases c with
  | heading name style level =>
    obtain ⟨x, hx, rfl⟩ := Option.map_eq_some_iff.1 (Except.ok.inj h)
    obtain ⟨hd, -, rfl⟩ := exists_of_heading? hx
    cases hp
    rfl
  | underlinedHeading =>
    obtain ⟨x, hx, rfl⟩ := Option.map_eq_some_iff.1 (Except.ok.inj h)
    obtain ⟨c, below, depth, -, -, rfl⟩ := exists_of_underlinedHeading? hx
    cases hp
    rfl
  | table =>
    obtain ⟨x, hx, rfl⟩ := Option.map_eq_some_iff.1 (Except.ok.inj h)
    obtain ⟨header, dashed, body, -, -, rfl⟩ := exists_of_table? hx
    cases hp
    rfl
  | paragraph =>
    obtain ⟨x, hx, rfl⟩ := Option.map_eq_some_iff.1 (Except.ok.inj h)
    obtain ⟨-, -, rfl⟩ := paragraph?_eq_some hx
    cases hp
    rfl
  | text =>
    cases h
    cases hp
    rfl
  | _ => cases hmade

lemma Block.Within.mono {n n' : Nat} {b : Block} (h : b.Within n) (hle : n ≤ n') :
    b.Within n' := by
  cases h with
  | leaf hinlines hpending => exact .leaf hinlines fun p hp => (hpending p hp).trans hle
  | node hbs hm => exact .node hbs (hm.trans hle)

lemma Weight.nesting_of_gathers {f : Block.Frame} (h : f.gathers = true) :
    Weight.nesting.block f.kind = 0 := by
  cases f with
  | note => rfl
  | division => rfl
  | _ => cases h

/-- A callout takes no level, so it may grow by a block of the same level. -/
lemma Block.Within.grow {n : Nat} {callout b grown : Block}
    (h : appendToCallout? callout b = some grown) (hcallout : callout.Within n)
    (hb : b.Within n) : grown.Within n := by
  obtain ⟨hd, f, kids, rfl, hgathers, rfl⟩ := exists_of_appendToCallout? h
  have hf := Weight.nesting_of_gathers hgathers
  cases hcallout with
  | @node _ m _ _ _ hbs hle =>
    refine .node (m := n) (fun d hd => ?_) (by omega)
    rcases List.mem_append.1 hd with hd | hd
    · exact (hbs d hd).mono (by omega)
    · rw [List.mem_singleton.1 hd]
      exact hb

/-- A container takes one level, and its content opens no more than are left behind that. -/
lemma within_node {f : Block.Frame} {inner : Scope} {bs : List Block}
    (hf : Weight.nesting.block f.kind ≤ 1) (hcan : scope.canNest = true)
    (hinner : inner.depth = scope.depth + 1) (hbs : ∀ b ∈ bs, b.Within inner.budget) :
    (Block.node head f bs).Within scope.budget := by
  have hpos := Scope.canNest_iff.1 hcan
  have hbudget := Scope.budget_of_depth hinner
  exact .node hbs (by omega)

/-- A leaf of the first pass has no inlines yet, and leaves what the scope has left to them. -/
lemma within_leaf {nest : Option BlockReader} {c : BlockConstruct} {m : Found Block.Body}
    {l : Block.Leaf} (h : c.recognize nest scope cur = .ok (some m)) (hl : m.value = .leaf l) :
    (Block.ofBody head m.value).Within scope.budget := by
  obtain ⟨-, hinlines⟩ := BlockConstruct.recognize_leaf h hl
  rw [hl]
  refine .leaf hinlines fun p hp => ?_
  rw [hp] at hl
  exact (BlockConstruct.recognize_scope h hl ▸ le_rfl)

lemma BlockConstruct.recognize_within {nest : Option BlockReader}
    (hnest : ∀ read, nest = some read →
      YieldsBelow scope read fun inner b => b.Within inner.budget)
    {c : BlockConstruct} {m : Found Block.Body} (h : c.recognize nest scope cur = .ok (some m)) :
    (Block.ofBody head m.value).Within scope.budget := by
  rcases c.recognize_cases h with
    ⟨read, hread, hquote⟩ | ⟨read, hread, hlist⟩ | ⟨f, hvalue, hgathers, -⟩ | ⟨l, hvalue, -⟩
  · obtain ⟨hcan, hbelow⟩ := hnest read hread
    obtain ⟨-, bs, hbs, rfl⟩ := exists_of_blockquote? hquote
    exact within_node le_rfl hcan rfl
      (groupCallouts_keeps (fun _ _ _ => Block.Within.grow) (hbelow _ rfl _ _ _ hbs))
  · obtain ⟨hcan, hbelow⟩ := hnest read hread
    obtain ⟨ordered, start, loose, items, hvalue, hitems⟩ := list?_value hlist
    rw [hvalue]
    have hinner : (scope.nested Scope.isInList).depth = scope.depth + 1 := rfl
    refine within_node le_rfl hcan hinner fun i hi => ?_
    -- the level is taken by the list, and an item takes none
    obtain ⟨hd, checked, text, origin, bs, hbs, rfl⟩ := hitems i hi
    exact .node (hbelow _ rfl _ _ _ hbs) (Nat.zero_add _).le
  · have hf := Weight.nesting_of_gathers hgathers
    rw [hvalue]
    exact .node (m := 0) (by simp) (by omega)
  · exact within_leaf h hvalue

end Blocks

/-- Every block of the first pass opens no more levels than the scope has left in which it is
read. -/
lemma scanBlocks_within {rules : RuleSet} (hrules : rules.IsStandard) (scope : Scope) (text : Text)
    (origin : Point) :
    ∀ b ∈ (scanBlocks rules scope text origin).tokens, b.Within scope.budget :=
  scanBlocks_byLevels (P := fun scope b => b.Within scope.budget) hrules
    (fun _ _ hnest _ _ _ _ h => BlockConstruct.recognize_within hnest h) scope text origin

/-! ## The second pass -/

/-- The second pass opens no more levels than the first one has left to it. -/
lemma Block.resolve_height_le {read : InlineReader} (hread : read.Yields Inline.FitsIn) {n : Nat}
    {b b' : Block} (h : b.resolve read = .ok b') (hb : b.Within n) : b'.height .nesting ≤ n := by
  induction b using Block.induction generalizing n b' with
  | leaf hd c =>
    cases hb with
    | leaf hinlines hpending =>
      by_cases hp : ∃ p, c = .pending p
      · obtain ⟨p, rfl⟩ := hp
        rw [Block.resolve] at h
        obtain ⟨l, hl, rfl⟩ := exists_of_map_ok h
        obtain ⟨-, hcontent⟩ := Pending.complete_leaf hl
        rw [Block.height_leaf, Block.Leaf.height, Weight.nesting_blockLeaf, Nat.zero_add,
          Inline.heightRows_le]
        intro ts hts
        obtain ⟨text, htext⟩ := hcontent ts hts
        exact (Inline.heightAll_le.2 (hread _ _ _ _ htext)).trans (hpending p rfl)
      · rw [Block.resolve.eq_2 read hd c fun p hc => hp ⟨p, hc⟩] at h
        cases h
        simp [Block.Leaf.height, hinlines]
  | node hd f bs ih =>
    rw [Block.resolve] at h
    obtain ⟨bs', hbs', rfl⟩ := exists_of_map_ok h
    cases hb with
    | @node _ m _ _ _ hbs hle =>
      have hall : Block.heightAll .nesting bs' ≤ m := by
        rw [Block.heightAll_le]
        intro b' hb'
        obtain ⟨b, hmem, hres⟩ := exists_of_mem_forall₂ (Block.resolveAll_forall₂ hbs') b' hb'
        exact ih b hmem hres (hbs b hmem)
      rw [Block.height_node]
      omega

/-! ## Documents -/

lemma resolved_height_le {rules : RuleSet} (hrules : rules.IsStandard) {defs : Definitions}
    {scope : Scope} {text : Text} {origin : Point} {bs bs' : List Block}
    (hbs : (scanBlocks rules scope text origin).toExcept = .ok bs)
    (hbs' : Block.resolveAll (readInlines rules defs) bs = .ok bs') :
    Block.heightAll .nesting bs' ≤ scope.budget := by
  have hwithin := scanBlocks_within hrules scope text origin
  rw [(Run.tokens_of_toExcept hbs).2] at hwithin
  rw [Block.heightAll_le]
  intro b' hb'
  obtain ⟨b, hmem, hres⟩ := exists_of_mem_forall₂ (Block.resolveAll_forall₂ hbs') b' hb'
  exact Block.resolve_height_le (readInlines_fitsIn hrules defs) hres (hwithin b hmem)

/-- **Nesting is bounded.**  On no branch of a tree that was read with the language's own constructs
are there more quotes, lists, links and spans of emphasis together than the scope had levels left,
in the blocks of a text from any origin as in a document.  So every reading ends: reading blocks,
and likewise reading inlines, is the recursion in which nested content is read one level deeper as
long as the scope has a level left, this recursion has no other solution, and with both rules for
plain text it has a tree for every text. -/
theorem nesting_bounded {rules : RuleSet} (hrules : rules.IsStandard) (defs : Definitions)
    (scope : Scope) :
    (∀ text origin bs bs', (scanBlocks rules scope text origin).toExcept = .ok bs →
      Block.resolveAll (readInlines rules defs) bs = .ok bs' →
        ∀ b ∈ bs', ∀ branch, b.HasBranch branch →
          branch.countP Token.opensLevel ≤ Scope.maxNesting - scope.depth) ∧
    (∀ text root, (readWith rules defs scope text).1 = .ok root →
      ∀ branch, root.HasBranch branch →
        branch.countP Token.opensLevel ≤ Scope.maxNesting - scope.depth) ∧
    (rules.HasText → ∀ text, ∃ root, (readWith rules defs scope text).1 = .ok root) ∧
    (∀ run, IsBlockReading rules run ↔ run = scanBlocks rules) ∧
    ∀ read, IsInlineReading rules defs read ↔ read = readInlines rules defs := by
  refine ⟨?_, ?_, fun htext => exists_readWith hrules htext defs scope,
    fun _ => isBlockReading_iff, fun _ => isInlineReading_iff⟩
  · intro text origin bs bs' hbs hbs' b hb branch hbranch
    have hheight := Block.heightAll_le.1 (resolved_height_le hrules hbs hbs') b hb
    rw [countP_opensLevel]
    exact hbranch.sum_le.trans hheight
  · intro text root hroot branch hbranch
    obtain ⟨bs, bs', hbs, hbs', rfl⟩ := readWith_ok hroot
    have hheight : (Block.ofDocument text bs').height .nesting ≤ scope.budget := by
      rw [Block.ofDocument, Block.height_node]
      exact (Nat.zero_add _).trans_le (resolved_height_le hrules hbs hbs')
    rw [countP_opensLevel]
    exact hbranch.sum_le.trans hheight

/-- Two levels are left, the quote and the list take them, and the emphasis in them stays text. -/
theorem nesting_bounded_dfm :
    dfmRules.IsStandard ∧ ∃ root,
      (readWith dfmRules [] ⟨.block, 98, []⟩ "> - *a*".toList).1 = .ok root ∧
      ∀ branch, root.HasBranch branch → branch.countP Token.opensLevel ≤ 2 := by
  have hrules : dfmRules.IsStandard := Flavor.rules_isStandard .dfm
  have hbounded := nesting_bounded hrules [] ⟨.block, 98, []⟩
  obtain ⟨root, hroot⟩ := hbounded.2.2.1 (Flavor.rules_hasText .dfm) "> - *a*".toList
  exact ⟨hrules, root, hroot, hbounded.2.1 _ root hroot⟩

end Docmark
