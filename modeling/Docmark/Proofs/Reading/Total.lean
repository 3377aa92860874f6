import Mathlib
import Docmark.Proofs.Extent.Slices
import Docmark.Proofs.Reading.Kinds
import Docmark.Proofs.Text.Bytes

/-!
# Readings do not fail

A rule set of the language's own constructs that holds both rules for plain text reads every text in
every scope, at any depth.  No step stalls, since every construct takes at least one character
(`Docmark.Proofs.Extent.Rule`); some rule always matches, since plain text takes whatever is left;
and every pending block has a form that the second pass completes.

Totality is carried through the nesting by induction on the levels that may still be opened:
`BlockReader.IsTotal` and `InlineReader.IsTotal` say that a reader of nested content never fails.
-/

namespace Docmark

/-- A rule set with a rule for plain text among its block rules and among its inline rules. -/
structure RuleSet.HasText (rs : RuleSet) : Prop where
  block : .standard .text ∈ rs.block
  inline : ∃ bare, .standard (.text bare) ∈ rs.inline

lemma Flavor.rules_hasText (f : Flavor) : f.rules.HasText where
  block := by cases f <;> simp [Flavor.rules, markdownRules, gfmRules, dfmRules]
  inline := by cases f <;> simp [Flavor.rules, markdownRules, gfmRules, dfmRules]

/-- A reader of blocks that never fails. -/
def BlockReader.IsTotal (read : BlockReader) : Prop :=
  ∀ scope text origin, ∃ bs, read scope text origin = .ok bs

/-- A reader of inlines that never fails. -/
def InlineReader.IsTotal (read : InlineReader) : Prop :=
  ∀ scope text origin, ∃ ts, read scope text origin = .ok ts

/-! ## The first pass -/

section Blocks

variable {nest : Option BlockReader} (hnest : ∀ read, nest = some read → read.IsTotal)

include hnest

lemma BlockConstruct.exists_recognize (c : BlockConstruct) (scope : Scope) (cur : Cursor) :
    ∃ r, c.recognize nest scope cur = .ok r := by
  cases c with
  | blockquote =>
    cases nest with
    | none => exact ⟨_, rfl⟩
    | some read =>
      simp only [recognize, blockquote?]
      split
      next => exact ⟨_, rfl⟩
      next =>
        obtain ⟨bs, hbs⟩ := hnest read rfl (scope.nested Scope.isBlockQuote)
          (quotedText (quoteLines (lines cur.rest))) cur.point
        rw [hbs]
        exact ⟨_, rfl⟩
  | list =>
    cases nest with
    | none => exact ⟨_, rfl⟩
    | some read =>
      simp only [recognize, list?]
      split
      next => exact ⟨_, rfl⟩
      next marker scan _ =>
        have hitem : ∀ item ∈ scan.items, ∃ b, readItem read scope cur scan.loose item = .ok b := by
          intro item _
          obtain ⟨bs, hbs⟩ := hnest read rfl (scope.nested Scope.isInList)
            (splitTask item.content).2 (cur.pointAt item.start)
          simp only [readItem, hbs]
          exact ⟨_, rfl⟩
        obtain ⟨items, hitems⟩ := exists_mapM_ok _ hitem
        rw [hitems]
        exact ⟨_, rfl⟩
  | _ => exact ⟨_, rfl⟩

/-- Wherever something is left, some rule takes something of it. -/
lemma exists_nextBlock {rules : RuleSet} (hrules : rules.IsStandard) (htext : rules.HasText)
    {scope : Scope} {cur : Cursor} (hrest : cur.rest ≠ []) :
    ∃ m, nextBlock rules nest scope cur = .ok (some m) ∧ 0 < m.length := by
  obtain ⟨m, hm⟩ : ∃ m, nextBlock rules nest scope cur = .ok (some m) := by
    refine exists_firstMatch ?_ ⟨_, htext.block, ?_⟩
    · intro r hr
      obtain ⟨c, rfl⟩ := hrules.block r hr
      obtain ⟨found, hfound⟩ := c.exists_recognize hnest scope cur
      simp only [BlockRule.attempt, hfound]
      cases found <;> exact ⟨_, rfl⟩
    · exact ⟨_, _, rfl⟩
  refine ⟨m, hm, ?_⟩
  obtain ⟨c, found, -, hfound, rfl⟩ := nextBlock_some hrules hm
  exact (BlockConstruct.recognize_fits hrest hfound).1

lemma runBlocks_fault {rules : RuleSet} (hrules : rules.IsStandard) (htext : rules.HasText)
    (scope : Scope) (text : Text) (origin : Point) :
    (runBlocks rules nest scope text origin).fault = none :=
  readAll_total (fun _ hrest => exists_nextBlock hnest hrules htext hrest) _

end Blocks

section

variable {rules : RuleSet} (hrules : rules.IsStandard) (htext : rules.HasText)

include hrules htext

lemma blocksAt_isTotal (n : Nat) : (blocksAt rules n).IsTotal := by
  induction n with
  | zero =>
    intro scope text origin
    exact ⟨_, Run.toExcept_of_fault_none
      (runBlocks_fault (by simp) hrules htext scope text origin)⟩
  | succ n ih =>
    intro scope text origin
    refine ⟨_, Run.toExcept_of_fault_none (runBlocks_fault ?_ hrules htext scope text origin)⟩
    rintro read ⟨⟩
    exact ih

/-- The first pass never ends early. -/
lemma scanBlocks_fault (scope : Scope) (text : Text) (origin : Point) :
    (scanBlocks rules scope text origin).fault = none := by
  refine runBlocks_fault ?_ hrules htext scope text origin
  intro read hread
  simp only [nestedBlocks] at hread
  split at hread
  · cases hread
  · cases hread
    exact blocksAt_isTotal hrules htext _

end

/-! ## Inlines -/

section Inlines

variable {nest : Option InlineReader} (hnest : ∀ read, nest = some read → read.IsTotal)

include hnest

lemma linkVia_total (target : Label → Text → Option (Found Destination)) (scope : Scope)
    (cur : Cursor) : ∃ r, linkVia target nest scope cur = .ok r := by
  simp only [linkVia]
  split
  next => exact ⟨_, rfl⟩
  next l _ =>
    split
    next =>
      split
      next => exact ⟨_, rfl⟩
      next d _ =>
        simp only [Label.toInline]
        split
        next => exact ⟨_, rfl⟩
        next =>
          split
          next => exact ⟨_, rfl⟩
          next read =>
            obtain ⟨ts, hts⟩ := hnest _ rfl scope.insideLink l.text (cur.pointAt l.start)
            rw [hts]
            exact ⟨_, rfl⟩
    next => exact ⟨_, rfl⟩

lemma framed_total (frame : Inline.Frame) (size : Nat) (content : Option Text) (scope : Scope)
    (cur : Cursor) : ∃ r, framed frame size content nest scope cur = .ok r := by
  simp only [framed]
  split
  next read content =>
    obtain ⟨ts, hts⟩ := hnest _ rfl scope.descend content (cur.pointAt size)
    rw [hts]
    exact ⟨_, rfl⟩
  next => exact ⟨_, rfl⟩

lemma InlineConstruct.exists_recognize (defs : Definitions) (c : InlineConstruct) (scope : Scope)
    (cur : Cursor) : ∃ r, c.recognize defs nest scope cur = .ok r := by
  cases c with
  | link => exact linkVia_total hnest _ scope cur
  | refLink => exact linkVia_total hnest _ scope cur
  | shortLink => exact linkVia_total hnest _ scope cur
  | strong => exact framed_total hnest _ _ _ scope cur
  | em => exact framed_total hnest _ _ _ scope cur
  | del => exact framed_total hnest _ _ _ scope cur
  | _ => exact ⟨_, rfl⟩

lemma exists_nextInline {rules : RuleSet} (hrules : rules.IsStandard) (htext : rules.HasText)
    {defs : Definitions} {scope : Scope} {cur : Cursor} (hrest : cur.rest ≠ []) :
    ∃ m, nextInline rules defs nest scope cur = .ok (some m) ∧ 0 < m.length := by
  obtain ⟨m, hm⟩ : ∃ m, nextInline rules defs nest scope cur = .ok (some m) := by
    obtain ⟨bare, hbare⟩ := htext.inline
    refine exists_firstMatch ?_ ⟨_, hbare, ?_⟩
    · intro r hr
      obtain ⟨c, rfl⟩ := hrules.inline r hr
      obtain ⟨found, hfound⟩ := c.exists_recognize hnest defs scope cur
      simp only [InlineRule.attempt, hfound]
      cases found <;> exact ⟨_, rfl⟩
    · obtain ⟨found, hfound⟩ := Option.isSome_iff_exists.1 (plainText?_isSome bare hrest)
      simp only [InlineRule.attempt, InlineConstruct.recognize, hfound, Option.map_some]
      exact ⟨_, _, rfl⟩
  refine ⟨m, hm, ?_⟩
  obtain ⟨c, found, -, hfound, rfl⟩ := nextInline_some hrules hm
  exact (InlineConstruct.recognize_fits hfound).1

lemma runInlines_isTotal {rules : RuleSet} (hrules : rules.IsStandard) (htext : rules.HasText)
    (defs : Definitions) : InlineReader.IsTotal (runInlines rules defs nest) := by
  intro scope text origin
  refine ⟨_, Run.toExcept_of_fault_none (readAll_total ?_ _)⟩
  intro cur hrest
  exact exists_nextInline hnest hrules htext hrest

end Inlines

section

variable {rules : RuleSet} (hrules : rules.IsStandard) (htext : rules.HasText)

include hrules htext

lemma inlinesAt_isTotal (defs : Definitions) (n : Nat) : (inlinesAt rules defs n).IsTotal := by
  induction n with
  | zero => exact runInlines_isTotal (by simp) hrules htext defs
  | succ n ih =>
    refine runInlines_isTotal ?_ hrules htext defs
    rintro read ⟨⟩
    exact ih

lemma readInlines_isTotal (defs : Definitions) : (readInlines rules defs).IsTotal := by
  intro scope text origin
  exact inlinesAt_isTotal hrules htext defs _ scope text origin

end

/-! ## The second pass -/

section Resolve

variable {read : InlineReader} (hread : read.IsTotal)

include hread

/-- Every pending block whose form its rule completes is completed. -/
lemma Pending.exists_complete {rule : String} {p : Pending} (hp : p.form ≠ .unfinished) :
    ∃ l, p.complete read rule = .ok l := by
  obtain ⟨form, source, origin, scope⟩ := p
  have hcell (text : Text) : ∃ ts, read scope text origin = .ok ts := hread _ _ _
  cases form with
  | heading | paragraph | text =>
    obtain ⟨ts, hts⟩ := hcell source
    simp only [Pending.complete, hts]
    exact ⟨_, rfl⟩
  | table align header rows =>
    obtain ⟨header', hheader⟩ := exists_mapM_ok header fun text _ => hcell text
    obtain ⟨rows', hrows⟩ := exists_mapM_ok rows fun row _ =>
      exists_mapM_ok row fun text _ => hcell text
    refine ⟨.table align header' rows', ?_⟩
    simp only [Pending.complete, hheader, hrows, bind, Except.bind]
    rfl
  | unfinished => exact absurd rfl hp

omit hread in
lemma Block.exists_resolveAll {bs : List Block}
    (h : ∀ b ∈ bs, ∃ b', b.resolve read = .ok b') : ∃ bs', Block.resolveAll read bs = .ok bs' := by
  induction bs with
  | nil => exact ⟨[], rfl⟩
  | cons b bs ih =>
    obtain ⟨b', hb⟩ := h b List.mem_cons_self
    obtain ⟨bs', hbs⟩ := ih fun d hd => h d (List.mem_cons_of_mem _ hd)
    refine ⟨b' :: bs', ?_⟩
    rw [Block.resolveAll, hb, hbs]
    rfl

/-- Every block that the first pass makes is completed. -/
lemma Block.exists_resolve {b : Block} (hb : ∀ n ∈ b.nodes, n.IsScanned) :
    ∃ b', b.resolve read = .ok b' := by
  induction b using Block.induction with
  | leaf hd c =>
    have hc : c.IsScanned := hb (.leaf hd c) (by simp)
    cases c with
    | pending p =>
      obtain ⟨l, hl⟩ : ∃ l, p.complete read hd.rule = .ok l := Pending.exists_complete hread hc
      rw [Block.resolve, hl]
      exact ⟨_, rfl⟩
    | _ => exact ⟨_, rfl⟩
  | node hd f bs ih =>
    rw [Block.forall_nodes_node] at hb
    obtain ⟨bs', hbs⟩ := Block.exists_resolveAll fun b hmem => ih b hmem (hb.2 b hmem)
    rw [Block.resolve, hbs]
    exact ⟨_, rfl⟩

end Resolve

/-! ## Documents -/

lemma exists_readWith {rules : RuleSet} (hrules : rules.IsStandard) (htext : rules.HasText)
    (defs : Definitions) (scope : Scope) (text : Text) :
    ∃ root, (readWith rules defs scope text).1 = .ok root := by
  have hscan := Run.toExcept_of_fault_none (scanBlocks_fault hrules htext scope text Point.start)
  set run := scanBlocks rules scope text Point.start with hrun
  obtain ⟨bs, hbs⟩ : ∃ bs, Block.resolveAll (readInlines rules (defs.addBlocks run.tokens))
      run.tokens = .ok bs :=
    Block.exists_resolveAll fun b hb => Block.exists_resolve (readInlines_isTotal hrules htext _)
      (scanBlocks_isScanned hrules scope text Point.start b hb)
  refine ⟨Block.ofDocument text bs, ?_⟩
  simp only [readWith, ← hrun, hscan, bind, Except.bind, hbs]
  rfl

/-- **Readings do not fail.**  A standard rule set with both rules for plain text reads every text
in every scope, whatever definitions hold already, and leaves no pending block at any depth.  Every
step of it takes characters that are there, at least one, and so ends between the bytes of two
(`Cursor.CutsAt.consume_eq`).  What the constructs cut out of their input on the way stands in it. -/
theorem readWith_total {rules : RuleSet} (hrules : rules.IsStandard) (htext : rules.HasText)
    (defs : Definitions) (scope : Scope) (text : Text) :
    (∃ root, (readWith rules defs scope text).1 = .ok root ∧
      ∀ b ∈ root.nodes, b.kind ≠ .pending) ∧
    (∀ nest scope cur m, cur.rest ≠ [] → nextBlock rules nest scope cur = .ok (some m) →
      cur.CutsAt m.length) ∧
    (∀ defs nest scope cur m, nextInline rules defs nest scope cur = .ok (some m) →
      cur.CutsAt m.length) ∧
    ∀ cur : Cursor, SlicesStand cur.rest := by
  refine ⟨?_, ?_, ?_, fun cur => slicesStand cur.rest⟩
  · obtain ⟨root, hread⟩ := exists_readWith hrules htext defs scope text
    refine ⟨root, hread, ?_⟩
    have hnodes := (readWith_isRead hrules hread).1
    obtain ⟨bs, bs', -, -, rfl⟩ := readWith_ok hread
    refine Block.forall_nodes_node.2 ⟨by simp [Block.kind, Block.Frame.kind], ?_⟩
    intro b hb n hn hkind
    exact hnodes b hb n hn (by simp [hkind])
  · intro nest scope cur m hrest hm
    obtain ⟨c, found, -, hfound, rfl⟩ := nextBlock_some hrules hm
    obtain ⟨hpos, hle⟩ := BlockConstruct.recognize_fits hrest hfound
    exact ⟨hpos, hle⟩
  · intro defs nest scope cur m hm
    obtain ⟨c, found, -, hfound, rfl⟩ := nextInline_some hrules hm
    obtain ⟨hpos, hle⟩ := InlineConstruct.recognize_fits hfound
    exact ⟨hpos, hle⟩

/-- The largest dialect in a scope that lets only one more construct be opened: the unclosed link of
the list item within the quote stays text. -/
theorem readWith_total_dfm :
    dfmRules.IsStandard ∧ dfmRules.HasText ∧
    (∃ root, (readWith dfmRules [] ⟨.block, 99, []⟩ "> * [é".toList).1 = .ok root ∧
      ∀ b ∈ root.nodes, b.kind ≠ .pending) ∧
    (∀ nest scope cur m, cur.rest ≠ [] → nextBlock dfmRules nest scope cur = .ok (some m) →
      cur.CutsAt m.length) ∧
    (∀ defs nest scope cur m, nextInline dfmRules defs nest scope cur = .ok (some m) →
      cur.CutsAt m.length) ∧
    ∀ cur : Cursor, SlicesStand cur.rest := by
  have hrules : dfmRules.IsStandard := Flavor.rules_isStandard .dfm
  have htext : dfmRules.HasText := Flavor.rules_hasText .dfm
  exact ⟨hrules, htext, readWith_total hrules htext [] ⟨.block, 99, []⟩ "> * [é".toList⟩

end Docmark
