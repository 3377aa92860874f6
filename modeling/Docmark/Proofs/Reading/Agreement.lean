import Mathlib
import Docmark.Proofs.Reading.Choice
import Docmark.Proofs.Reading.Passes
import Docmark.Proofs.Text.Pattern

/-!
# Rule sets that agree on a text

Two rule sets read a text alike if they come to the same choice at every place of it, and at every
place of the texts that are read for its content at any depth.  Which texts these are is not known
beforehand, but each of them avoids the patterns that the whole text avoids (`Avoids`).  So it is
enough that the rule sets choose alike, step by step, on the texts without some patterns
(`RuleSet.AgreeOn`).  A rule that declines wherever it is tried makes no difference to a choice
(`ChooseAlike`).

## Main results

* `ChooseAlike.firstMatch_eq` — lists of rules that attempt the same come to the same choice.
* `RuleSet.AgreeOn.readWith_eq` — rule sets that choose alike read alike.
-/

namespace Docmark

/-! ## Rules that come to the same choice -/

section Choice

variable {ρ α : Type} {nameOf : ρ → String} {attempt attempt' : ρ → Except Fault (Attempt α)}

/-- A rule that does not recognise anything where it is tried. -/
def Declines (attempt : ρ → Except Fault (Attempt α)) (r : ρ) : Prop :=
  ∃ moved, attempt r = .ok ⟨none, moved⟩

/-- Two lists of rules that attempt the same under the same names, one by one, but for rules that
decline. -/
inductive ChooseAlike (nameOf : ρ → String) (attempt attempt' : ρ → Except Fault (Attempt α)) :
    List ρ → List ρ → Prop
  | nil : ChooseAlike nameOf attempt attempt' [] []
  | both {r r' : ρ} {rs rs' : List ρ} (hname : nameOf r = nameOf r')
      (hsame : attempt r = attempt' r') (h : ChooseAlike nameOf attempt attempt' rs rs') :
      ChooseAlike nameOf attempt attempt' (r :: rs) (r' :: rs')
  | left {r : ρ} {rs rs' : List ρ} (hr : Declines attempt r)
      (h : ChooseAlike nameOf attempt attempt' rs rs') :
      ChooseAlike nameOf attempt attempt' (r :: rs) rs'

lemma ChooseAlike.firstMatch_eq {rs rs' : List ρ}
    (h : ChooseAlike nameOf attempt attempt' rs rs') :
    firstMatch nameOf attempt rs = firstMatch nameOf attempt' rs' := by
  induction h with
  | nil => rfl
  | both hname hsame _ ih => simp only [firstMatch, hname, hsame, ih]
  | left hr _ ih =>
    obtain ⟨moved, hr⟩ := hr
    simp only [firstMatch, hr, ih]

/-- Rules that attempt the same may stand in front of both lists. -/
lemma ChooseAlike.prepend {front rs rs' : List ρ} (hfront : ∀ r ∈ front, attempt r = attempt' r)
    (h : ChooseAlike nameOf attempt attempt' rs rs') :
    ChooseAlike nameOf attempt attempt' (front ++ rs) (front ++ rs') := by
  induction front with
  | nil => exact h
  | cons r front ih =>
    exact .both rfl (hfront r List.mem_cons_self)
      (ih fun r' hr' => hfront r' (List.mem_cons_of_mem _ hr'))

/-- Rules that decline may stand in front of one list. -/
lemma ChooseAlike.skip {front rs rs' : List ρ} (hfront : ∀ r ∈ front, Declines attempt r)
    (h : ChooseAlike nameOf attempt attempt' rs rs') :
    ChooseAlike nameOf attempt attempt' (front ++ rs) rs' := by
  induction front with
  | nil => exact h
  | cons r front ih =>
    exact .left (hfront r List.mem_cons_self)
      (ih fun r' hr' => hfront r' (List.mem_cons_of_mem _ hr'))

end Choice

/-! ## Readers that agree -/

/-- Two readers that read the same from every text that avoids some patterns. -/
def BlockReader.AgreeOn (patterns : List String) (read read' : BlockReader) : Prop :=
  ∀ scope text origin, Avoids patterns text → read scope text origin = read' scope text origin

/-- Two readers that read the same from every text that avoids some patterns. -/
def InlineReader.AgreeOn (patterns : List String) (read read' : InlineReader) : Prop :=
  ∀ scope text origin, Avoids patterns text → read scope text origin = read' scope text origin

section Agree

variable {patterns : List String} (hsolid : ∀ p ∈ patterns, IsSolid p.toList) {scope : Scope}
  {cur : Cursor} (hcur : Avoids patterns cur.rest)

include hsolid hcur

lemma blockquote?_agreeOn {read read' : BlockReader} (h : read.AgreeOn patterns read') :
    blockquote? read scope cur = blockquote? read' scope cur := by
  simp only [blockquote?]
  split
  next => rfl
  next => rw [h _ _ _ (hcur.quotedText hsolid)]

lemma list?_agreeOn {read read' : BlockReader} (h : read.AgreeOn patterns read') :
    list? read scope cur = list? read' scope cur := by
  simp only [list?]
  split
  next => rfl
  next marker scan hscan =>
    -- only the items that were scanned are read, and those avoid the patterns
    have hitems : scan.items.mapM (readItem read scope cur scan.loose) =
        scan.items.mapM (readItem read' scope cur scan.loose) := by
      refine mapM_congr fun item hitem => ?_
      simp only [readItem]
      rw [h _ _ _ (hcur.item hsolid hscan hitem)]
    rw [hitems]

/-- A construct is recognised alike if what is read inside it is. -/
lemma BlockConstruct.recognize_agreeOn {nest nest' : Option BlockReader}
    (h : Option.Rel (BlockReader.AgreeOn patterns) nest nest') (c : BlockConstruct) :
    c.recognize nest scope cur = c.recognize nest' scope cur := by
  cases h with
  | none => rfl
  | some h =>
    cases c with
    | blockquote => exact blockquote?_agreeOn hsolid hcur h
    | list => exact list?_agreeOn hsolid hcur h
    | _ => rfl

omit hsolid in
lemma linkVia_agreeOn {target : Label → Text → Option (Found Destination)}
    {read read' : InlineReader} (h : read.AgreeOn patterns read') :
    linkVia target (some read) scope cur = linkVia target (some read') scope cur := by
  simp only [linkVia]
  split
  next => rfl
  next l hl =>
    obtain ⟨opening, after, hrest, -⟩ := label?_hasSlice hl
    have htext : Avoids patterns l.text := hcur.of_piece ⟨opening, after, hrest.symm⟩
    have hallowed : l.allowed scope (some read) = l.allowed scope (some read') := rfl
    have hinline (d : Destination) (length : Nat) :
        l.toInline d length (some read) scope cur = l.toInline d length (some read') scope cur := by
      simp only [Label.toInline]
      rw [h _ _ _ htext]
    simp only [hallowed, hinline]

omit hsolid in
lemma framed_agreeOn {frame : Inline.Frame} {size : Nat} {content : Option Text}
    (hcontent : ∀ c, content = some c → ∃ opening after, cur.rest = opening ++ c ++ after)
    {read read' : InlineReader} (h : read.AgreeOn patterns read') :
    framed frame size content (some read) scope cur =
      framed frame size content (some read') scope cur := by
  cases content with
  | none => rfl
  | some c =>
    obtain ⟨opening, after, hrest⟩ := hcontent c rfl
    simp only [framed]
    rw [h _ _ _ (hcur.of_piece ⟨opening, after, hrest.symm⟩)]

omit hsolid in
/-- A construct is recognised alike if what is read inside it is. -/
lemma InlineConstruct.recognize_agreeOn {defs : Definitions} {nest nest' : Option InlineReader}
    (h : Option.Rel (InlineReader.AgreeOn patterns) nest nest') (c : InlineConstruct) :
    c.recognize defs nest scope cur = c.recognize defs nest' scope cur := by
  cases h with
  | none => rfl
  | some h =>
    have hpair {mark : Char} {content : Text} (hc : betweenPairs? mark cur.rest = some content) :
        ∃ opening after, cur.rest = opening ++ content ++ after := by
      obtain ⟨opening, after, hrest, -⟩ := betweenPairs?_hasSlice hc
      exact ⟨opening, after, hrest⟩
    cases c with
    | link | refLink | shortLink => exact linkVia_agreeOn hcur h
    | strong =>
      refine framed_agreeOn hcur (fun content hcontent => ?_) h
      rcases Option.or_eq_some_iff.1 hcontent with hstars | ⟨-, hlines⟩
      · exact hpair hstars
      · exact hpair hlines
    | em =>
      refine framed_agreeOn hcur (fun content hcontent => ?_) h
      obtain ⟨opening, after, hrest, -⟩ := betweenMarks?_hasSlice hcontent
      exact ⟨opening, after, hrest⟩
    | del => exact framed_agreeOn hcur (fun _ hcontent => hpair hcontent) h
    | _ => rfl

end Agree

/-! ## Rules of the same constructs -/

section Standard

variable {scope : Scope} {cur : Cursor}

/-- A construct that is not recognised makes a rule that declines. -/
lemma declines_of_block {nest : Option BlockReader} {c : BlockConstruct}
    (h : c.recognize nest scope cur = .ok none) :
    Declines (BlockRule.attempt nest scope cur) (.standard c) := by
  refine ⟨0, ?_⟩
  simp only [BlockRule.attempt, h]

lemma declines_of_inline {defs : Definitions} {nest : Option InlineReader} {c : InlineConstruct}
    (h : c.recognize defs nest scope cur = .ok none) :
    Declines (InlineRule.attempt defs nest scope cur) (.standard c) := by
  refine ⟨0, ?_⟩
  simp only [InlineRule.attempt, h]

variable {patterns : List String} (hcur : Avoids patterns cur.rest)

include hcur

lemma BlockRule.attempt_congr (scope : Scope) (hsolid : ∀ p ∈ patterns, IsSolid p.toList)
    {nest nest' : Option BlockReader}
    (hnest : Option.Rel (BlockReader.AgreeOn patterns) nest nest') (cs : List BlockConstruct) :
    ∀ r ∈ cs.map BlockRule.standard, r.attempt nest scope cur = r.attempt nest' scope cur := by
  rw [List.forall_mem_map]
  intro c _
  simp only [BlockRule.attempt, c.recognize_agreeOn hsolid hcur hnest]

lemma InlineRule.attempt_congr (defs : Definitions) (scope : Scope)
    {nest nest' : Option InlineReader}
    (hnest : Option.Rel (InlineReader.AgreeOn patterns) nest nest') (cs : List InlineConstruct) :
    ∀ r ∈ cs.map InlineRule.standard,
      r.attempt defs nest scope cur = r.attempt defs nest' scope cur := by
  rw [List.forall_mem_map]
  intro c _
  simp only [InlineRule.attempt, c.recognize_agreeOn hcur hnest]

end Standard

/-! ## Rule sets that agree -/

/-- Two rule sets of which each step from a text that avoids some patterns is the same, if what is
read inside is. -/
structure RuleSet.AgreeOn (patterns : List String) (rules rules' : RuleSet) : Prop where
  block : ∀ {nest nest' : Option BlockReader},
    Option.Rel (BlockReader.AgreeOn patterns) nest nest' → ∀ scope (cur : Cursor),
      Avoids patterns cur.rest → nextBlock rules nest scope cur = nextBlock rules' nest' scope cur
  inline : ∀ defs {nest nest' : Option InlineReader},
    Option.Rel (InlineReader.AgreeOn patterns) nest nest' → ∀ scope (cur : Cursor),
      Avoids patterns cur.rest →
        nextInline rules defs nest scope cur = nextInline rules' defs nest' scope cur

/-- Steps that are the same at every cursor of a reading make the same reading. -/
lemma readAll_congr {α : Type} {next next' : Cursor → Except Fault (Option (Match α))}
    {patterns : List String}
    (h : ∀ cur : Cursor, Avoids patterns cur.rest → next cur = next' cur) (cur : Cursor)
    (hcur : Avoids patterns cur.rest) : readAll next cur = readAll next' cur := by
  fun_induction readAll next cur with
  | case1 cur hrest => rw [readAll, dif_pos hrest]
  | case2 cur hrest e hnext =>
    rw [h cur hcur] at hnext
    rw [readAll, dif_neg hrest, hnext]
  | case3 cur hrest hnext =>
    rw [h cur hcur] at hnext
    rw [readAll, dif_neg hrest, hnext]
  | case4 cur hrest m hnext hlen =>
    rw [h cur hcur] at hnext
    rw [readAll, dif_neg hrest, hnext]
    simp only [dif_pos hlen]
  | case5 cur hrest m hnext hlen rest ih =>
    have hdrop : Avoids patterns (cur.drop m.length).rest :=
      hcur.of_piece (List.drop_suffix _ _).isInfix
    rw [h cur hcur] at hnext
    rw [readAll, dif_neg hrest, hnext]
    simp only [dif_neg hlen, rest, ih hdrop]

namespace RuleSet.AgreeOn

variable {patterns : List String} {rules rules' : RuleSet} (h : rules.AgreeOn patterns rules')

include h

lemma runBlocks_eq {nest nest' : Option BlockReader}
    (hnest : Option.Rel (BlockReader.AgreeOn patterns) nest nest') (scope : Scope) {text : Text}
    (htext : Avoids patterns text) (origin : Point) :
    runBlocks rules nest scope text origin = runBlocks rules' nest' scope text origin :=
  readAll_congr (h.block hnest scope) _ htext

/-- The readers of all levels agree, by induction on the levels that a text may open. -/
lemma blocksAt_agree (n : Nat) : (blocksAt rules n).AgreeOn patterns (blocksAt rules' n) := by
  induction n with
  | zero =>
    intro scope text origin htext
    rw [blocksAt, blocksAt, h.runBlocks_eq .none scope htext]
  | succ n ih =>
    intro scope text origin htext
    rw [blocksAt, blocksAt, h.runBlocks_eq (.some ih) scope htext]

/-- The first pass yields the same blocks. -/
lemma scanBlocks_eq (scope : Scope) {text : Text} (htext : Avoids patterns text) (origin : Point) :
    scanBlocks rules scope text origin = scanBlocks rules' scope text origin := by
  have hnest : Option.Rel (BlockReader.AgreeOn patterns) (nestedBlocks rules scope)
      (nestedBlocks rules' scope) := by
    simp only [nestedBlocks]
    split
    · exact .none
    · exact .some (h.blocksAt_agree _)
  exact h.runBlocks_eq hnest scope htext origin

lemma inlinesAt_agree (defs : Definitions) (n : Nat) :
    (inlinesAt rules defs n).AgreeOn patterns (inlinesAt rules' defs n) := by
  have hrun {nest nest' : Option InlineReader}
      (hnest : Option.Rel (InlineReader.AgreeOn patterns) nest nest') :
      InlineReader.AgreeOn patterns (runInlines rules defs nest)
        (runInlines rules' defs nest') := by
    intro scope text origin htext
    rw [runInlines, runInlines, readAll_congr (h.inline defs hnest scope.toInline) _ htext]
  induction n with
  | zero => exact hrun .none
  | succ n ih => exact hrun (.some ih)

lemma readInlines_agree (defs : Definitions) :
    (readInlines rules defs).AgreeOn patterns (readInlines rules' defs) :=
  fun scope => h.inlinesAt_agree defs scope.budget scope

end RuleSet.AgreeOn

/-! ## The second pass -/

/-- A block that avoids some patterns with all texts that it leaves to the second pass, if it is
pending. -/
def Block.DefersAvoiding (patterns : List String) (b : Block) : Prop :=
  ∀ hd p, b = .leaf hd (.pending p) → ∀ t ∈ p.texts, Avoids patterns t

lemma Block.defersAvoiding_node (patterns : List String) (hd : Head) (f : Block.Frame)
    (bs : List Block) : (Block.node hd f bs).DefersAvoiding patterns := nofun

section Pending

variable {patterns : List String} {read read' : InlineReader} (h : read.AgreeOn patterns read')

include h

lemma Pending.complete_congr {p : Pending} (hp : ∀ t ∈ p.texts, Avoids patterns t) (rule : String) :
    p.complete read rule = p.complete read' rule := by
  obtain ⟨form, source, origin, scope⟩ := p
  cases form with
  | heading | paragraph | text =>
    simp only [Pending.complete, h _ _ _ (hp source List.mem_cons_self)]
  | table align header rows =>
    have hcell {ts : List Text} (hts : ∀ t ∈ ts, Avoids patterns t) :
        (ts.mapM fun t => read scope t origin) = ts.mapM fun t => read' scope t origin :=
      mapM_congr fun t ht => h scope t origin (hts t ht)
    have hheader := hcell fun t ht => hp t (List.mem_append_left _ ht)
    have hrows : (rows.mapM fun row => row.mapM fun t => read scope t origin) =
        rows.mapM fun row => row.mapM fun t => read' scope t origin :=
      mapM_congr fun row hrow => hcell fun t ht =>
        hp t (List.mem_append_right _ (List.mem_flatten.2 ⟨row, hrow, ht⟩))
    simp only [Pending.complete, hheader, hrows]
  | unfinished => rfl

omit h in
lemma Block.resolveAll_congr {bs : List Block} (h : ∀ b ∈ bs, b.resolve read = b.resolve read') :
    Block.resolveAll read bs = Block.resolveAll read' bs := by
  induction bs with
  | nil => rfl
  | cons b bs ih =>
    rw [resolveAll, resolveAll, h b List.mem_cons_self,
      ih fun d hd => h d (List.mem_cons_of_mem _ hd)]

lemma Block.resolve_congr (b : Block) (hb : ∀ n ∈ b.nodes, n.DefersAvoiding patterns) :
    b.resolve read = b.resolve read' := by
  induction b using Block.induction with
  | leaf hd c =>
    by_cases hpending : ∃ p, c = .pending p
    · obtain ⟨p, rfl⟩ := hpending
      have hp := hb (.leaf hd (.pending p)) (by simp) hd p rfl
      rw [resolve, resolve, Pending.complete_congr h hp]
    · have hpending : ∀ p, c ≠ .pending p := fun p hp => hpending ⟨p, hp⟩
      rw [Block.resolve.eq_2 read hd c hpending, Block.resolve.eq_2 read' hd c hpending]
  | node hd f bs ih =>
    have hbelow := (Block.forall_nodes_node.1 hb).2
    rw [resolve, resolve, resolveAll_congr fun d hd => ih d hd (hbelow d hd)]

end Pending

section Scan

variable {patterns : List String} (hsolid : ∀ p ∈ patterns, IsSolid p.toList)

include hsolid

/-- What a construct leaves pending avoids what its input avoids, if the same is true of what is
read inside it. -/
lemma BlockConstruct.recognize_defersAvoiding {nest : Option BlockReader}
    (hnest : ∀ read, nest = some read → BlockReader.Reads read fun _ text b =>
      Avoids patterns text → ∀ n ∈ b.nodes, n.DefersAvoiding patterns)
    {scope : Scope} {cur : Cursor} (hcur : Avoids patterns cur.rest) {c : BlockConstruct}
    {m : Found Block.Body} {hd : Head} (h : c.recognize nest scope cur = .ok (some m)) :
    ∀ n ∈ (Block.ofBody hd m.value).nodes, n.DefersAvoiding patterns := by
  rcases c.recognize_cases h with
    ⟨read, hread, hquote⟩ | ⟨read, hread, hlist⟩ | ⟨f, hvalue, -, -⟩ | ⟨l, hvalue, -⟩
  · obtain ⟨-, bs, hbs, rfl⟩ := exists_of_blockquote? hquote
    refine Block.forall_nodes_node.2 ⟨Block.defersAvoiding_node patterns hd _ _, ?_⟩
    exact groupCallouts_nodes (fun _ _ _ _ _ _ => Block.defersAvoiding_node patterns _ _ _)
      fun b hb => hnest read hread _ _ _ _ hbs b hb (hcur.quotedText hsolid)
  · obtain ⟨marker, scan, items, hscan, hitems, hvalue⟩ := exists_of_list? hlist
    rw [hvalue]
    refine Block.forall_nodes_node.2 ⟨Block.defersAvoiding_node patterns hd _ _, fun i hi => ?_⟩
    obtain ⟨item, hitem, hread'⟩ := exists_of_mem_forall₂ hitems i hi
    obtain ⟨hd', bs, hbs, rfl⟩ := exists_of_readItem hread'
    refine Block.forall_nodes_node.2 ⟨Block.defersAvoiding_node patterns hd' _ _, fun b hb => ?_⟩
    exact hnest read hread _ _ _ _ hbs b hb (hcur.item hsolid hscan hitem)
  · rw [hvalue]
    exact Block.forall_nodes_node.2 ⟨Block.defersAvoiding_node patterns hd _ _, by simp⟩
  · rw [hvalue]
    intro n hn
    rw [Block.ofBody, Block.nodes_leaf, List.mem_singleton] at hn
    rintro hd' p rfl
    cases hn
    have htaken : Avoids patterns (cur.rest.take m.length) :=
      hcur.of_piece (List.take_prefix _ _).isInfix
    exact htaken.pending hsolid (BlockConstruct.recognize_pending h hvalue)

/-- What the first pass leaves pending avoids what the text avoids. -/
lemma scanBlocks_defersAvoiding {rules : RuleSet} (hrules : rules.IsStandard) (scope : Scope)
    {text : Text} (htext : Avoids patterns text) (origin : Point) :
    ∀ b ∈ (scanBlocks rules scope text origin).tokens,
      ∀ n ∈ b.nodes, n.DefersAvoiding patterns := by
  intro b hb
  refine scanBlocks_picks (P := fun _ text b =>
    Avoids patterns text → ∀ n ∈ b.nodes, n.DefersAvoiding patterns) hrules ?_ ?_ scope text origin
    b hb htext
  · intro scope before rest b hrest hboth
    exact hrest (hboth.of_piece (List.suffix_append before rest).isInfix)
  · intro nest hnest scope cur c found hpick hcur
    exact BlockConstruct.recognize_defersAvoiding hsolid hnest hcur hpick.1

/-- **Rule sets that choose alike read alike.** -/
theorem RuleSet.AgreeOn.readWith_eq {rules rules' : RuleSet} (h : rules.AgreeOn patterns rules')
    (hrules : rules.IsStandard) (defs : Definitions) (scope : Scope) {text : Text}
    (htext : Avoids patterns text) :
    readWith rules defs scope text = readWith rules' defs scope text := by
  have hscan := h.scanBlocks_eq scope htext Point.start
  -- the second pass reads no more than what the first one has left pending
  have hpending := scanBlocks_defersAvoiding hsolid hrules scope htext Point.start
  have hresolve (defs : Definitions) (bs : List Block)
      (hbs : (scanBlocks rules scope text Point.start).toExcept = .ok bs) :
      Block.resolveAll (readInlines rules defs) bs =
        Block.resolveAll (readInlines rules' defs) bs := by
    refine Block.resolveAll_congr fun b hb => ?_
    rw [← (Run.tokens_of_toExcept hbs).2] at hb
    exact Block.resolve_congr (h.readInlines_agree defs) b (hpending b hb)
  rw [hscan] at hresolve
  simp only [readWith, hscan]
  cases hrun : (scanBlocks rules' scope text Point.start).toExcept with
  | error e => rfl
  | ok bs => simp only [bind, Except.bind, hresolve _ bs hrun]

end Scan

end Docmark
