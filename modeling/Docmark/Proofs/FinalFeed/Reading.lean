import Mathlib
import Docmark.Proofs.Container.Alone
import Docmark.Proofs.FinalFeed.Bracket
import Docmark.Proofs.FinalFeed.Container

/-!
# Reading a text with one more line feed

Each rule makes of a line feed at the end of a text what `Found.Fed` says of constructs, so the
first rule that matches is the same one, and by induction the whole reading differs at its end only.
At the end a block may take the line feed, or blank lines may stand there; blank lines are told
first, and where nothing but white space is left no other rule is asked.

## Main results

* `BlockConstruct.recognize_fed` — what every construct makes of the line feed.
* `runBlocks_takesFeed` — what the reading of a nested text makes of it.
* `readWith_fed` — the tree of a text and of the text with one more line feed.
-/

namespace Docmark

/-! ## Blank lines -/

/-- White space between blocks: blanks, tabs and line feeds. -/
def isGap (c : Char) : Bool := isPad c || c == '\n'

section Gap

variable {cs : Text}

lemma all_isPad_of_gap {l : Text} (hl : '\n' ∉ l) : l.all isPad = l.all isGap := by
  rw [Bool.eq_iff_iff, List.all_eq_true, List.all_eq_true]
  refine forall₂_congr fun c hc => ?_
  have hfeed : c ≠ '\n' := fun h => hl (h ▸ hc)
  simp [isGap, hfeed]

lemma isBlank_of_gap {l : Text} (h : l.all isGap = true) : isBlank l = true := by
  refine List.all_eq_true.2 fun c hc => ?_
  have hgap := List.all_eq_true.1 h c hc
  simp only [isGap, isPad, Bool.or_eq_true, beq_iff_eq] at hgap
  obtain (rfl | rfl) | rfl := hgap <;> decide

lemma isPadLine_feed (l : Text) : isPadLine (l ++ ['\n']) = l.all isPad := by
  simp [isPadLine]

lemma isPadLine_last {l : Text} (hl : '\n' ∉ l) : isPadLine l = false := by
  have hlast : l.getLast? ≠ some '\n' := fun h => hl (List.mem_of_getLast? h)
  simp [isPadLine, hlast]

lemma not_mem_of_all_isPad (h : cs.all isPad = true) : '\n' ∉ cs :=
  fun hmem => absurd (List.all_eq_true.1 h _ hmem) (by decide)

lemma blankLines?_pads (hne : cs ≠ []) (h : cs.all isPad = true) :
    blankLines? cs = some ⟨cs.length, .newline⟩ := by
  have hfeed := not_mem_of_all_isPad h
  simp [blankLines?, lines_of_last hne hfeed, isPadLine_last hfeed, hne, h]

lemma blankLines?_padLine (h : cs.all isPad = true) :
    blankLines? (cs ++ ['\n']) = some ⟨(cs ++ ['\n']).length, .newline⟩ := by
  have hlines : lines (cs ++ ['\n']) = [cs ++ ['\n']] := lines_of_line (not_mem_of_all_isPad h) []
  simp [blankLines?, hlines, isPadLine_feed, h]

/-- Where only white space is left, a blank line is told. -/
lemma blankLines?_of_gap (hne : cs ≠ []) (h : cs.all isGap = true) :
    ∃ n, blankLines? cs = some ⟨n, .newline⟩ := by
  have hcs := lines_flatten cs
  have hls := lines_areLines cs
  cases hlines : lines cs with
  | nil => exact absurd (lines_eq_nil.1 hlines) hne
  | cons l ls =>
    rw [hlines] at hls hcs
    cases hls with
    | last _ hl =>
      rw [List.flatten_singleton] at hcs
      subst hcs
      exact ⟨_, blankLines?_pads hne (all_isPad_of_gap hl ▸ h)⟩
    | @cons l _ hl _ =>
      rw [← hcs, List.flatten_cons, List.all_append, List.all_append, Bool.and_eq_true,
        Bool.and_eq_true, ← all_isPad_of_gap hl] at h
      simp [blankLines?, hlines, isPadLine_feed, h.1.1]

/-- Where something else is left, blank lines end in front of it. -/
lemma blankLines?_feed (h : cs.all isGap = false) :
    blankLines? (cs ++ ['\n']) = blankLines? cs ∧
      ∀ m, blankLines? cs = some m → m.length < cs.length := by
  have hpads : cs.all isPad = false := by
    rw [Bool.eq_false_iff] at h ⊢
    exact fun hpads => h (by simp_all [isGap])
  have hpads' : (cs ++ ['\n']).all isPad = false := by
    rw [List.all_append, hpads, Bool.false_and]
  have hblank : (lines (cs ++ ['\n'])).takeWhile isPadLine = (lines cs).takeWhile isPadLine ∧
      ((lines cs).takeWhile isPadLine).flatten.length < cs.length := by
    have hfed := fedLines_lines cs
    rw [← lines_flatten cs] at h
    have hlength := congrArg List.length (lines_flatten cs)
    rw [← hlength]
    generalize lines (cs ++ ['\n']) = ls' at hfed
    generalize lines cs = ls at hfed h
    clear hlength hpads hpads'
    induction hfed with
    | own => cases h
    | @last l hne hl =>
      rw [List.flatten_singleton, ← all_isPad_of_gap hl] at h
      simp [isPadLine_feed, isPadLine_last hl, h, List.length_pos_iff.2 hne]
    | @cons l ls ls' hl _ ih =>
      rw [List.flatten_cons, List.all_append, List.all_append, ← all_isPad_of_gap hl] at h
      cases hl : l.all isPad with
      | false => simp [isPadLine_feed, hl]
      | true =>
        rw [hl, show ['\n'].all isGap = true by decide, Bool.true_and, Bool.true_and] at h
        obtain ⟨hsame, hlt⟩ := ih h
        simp [isPadLine_feed, hl, hsame]
        simpa using hlt
  refine ⟨?_, fun m hm => ?_⟩
  · simp [blankLines?, hblank.1, hpads, hpads']
  · simp only [blankLines?, hpads] at hm
    split at hm
    · cases hm
      exact hblank.2
    · simp at hm

end Gap

/-! ## One construct -/

section Construct

variable {nest : Option BlockReader} {scope : Scope} {cur : Cursor}

/-- A token of a construct that covers whole lines up to the end of the text has nothing open at its
end. -/
lemma BlockConstruct.recognize_closed (hnest : ∀ read, nest = some read → read.TakesFeed)
    {c : BlockConstruct} {m : Found Block.Body} (hends : EndsLine cur.rest) (hrest : cur.rest ≠ [])
    (h : c.recognize nest scope cur = .ok (some m)) (hlength : m.length = cur.rest.length) :
    (Block.ofBody ⟨c.name, cur.spanOf m.length⟩ m.value).endsOpen false = false := by
  rw [hlength]
  obtain ⟨read, hread, h⟩ | ⟨read, hread, h⟩ | ⟨f, hvalue, -⟩ | ⟨l, hvalue, -⟩ := recognize_cases h
  · exact blockquote?_closed (hnest read hread) hends hrest h false
  · exact list?_closed (hnest read hread) hends hrest h hlength false
  · rw [hvalue, Block.ofBody, Block.endsOpen_node, Block.endsOpenAll_nil]
  · rw [hvalue, Block.ofBody, Block.endsOpen_leaf, Bool.false_and]

variable (scope) in
/-- **What a construct makes of one more line feed.** -/
theorem BlockConstruct.recognize_fed (c : BlockConstruct)
    (hnest : ∀ read, nest = some read → read.TakesFeed) (hcolumn : 1 ≤ cur.point.column)
    (hrest : cur.rest ≠ []) (hgap : cur.rest.all isGap = false) :
    ∃ m m', c.recognize nest scope cur = .ok m ∧ c.recognize nest scope cur.feed = .ok m' ∧
      Found.Fed (Block.Body.Feeds ⟨c.name, cur.spanOf cur.rest.length⟩) cur.rest m m' := by
  have hleaf {m m' : Option (Found Block.Leaf)}
      (h : Found.Fed Block.Leaf.Feeds cur.rest m m') (head : Head) :
      Found.Fed (Block.Body.Feeds head) cur.rest (m.map (·.map .leaf)) (m'.map (·.map .leaf)) :=
    h.map fun _ _ hl => hl.body head
  cases c with
  | newline =>
    obtain ⟨hsame, hlt⟩ := blankLines?_feed hgap
    refine ⟨_, _, rfl, rfl, ?_⟩
    rw [Cursor.feed_rest, hsame]
    cases hblank : blankLines? cur.rest with
    | none => exact .none
    | some m => exact .inside (hlt m hblank)
  | indentedCode => exact ⟨_, _, rfl, rfl, hleaf (indentedCode?_fed hrest) _⟩
  | fences => exact ⟨_, _, rfl, rfl, hleaf (fencedCode?_fed _) _⟩
  | heading name style level => exact ⟨_, _, rfl, rfl, hleaf (heading?_fed style level scope cur) _⟩
  | underlinedHeading => exact ⟨_, _, rfl, rfl, hleaf (underlinedHeading?_fed scope cur) _⟩
  | thematicBreak => exact ⟨_, _, rfl, rfl, hleaf (thematicBreak?_fed _) _⟩
  | blockquote =>
    cases nest with
    | none => exact ⟨_, _, rfl, rfl, .none⟩
    | some read => exact blockquote?_fed (hnest read rfl) hcolumn hrest
  | list =>
    cases nest with
    | none => exact ⟨_, _, rfl, rfl, .none⟩
    | some read => exact list?_fed (hnest read rfl) hcolumn hrest
  | html => exact ⟨_, _, rfl, rfl, hleaf (htmlBlock?_fed _) _⟩
  | definition => exact ⟨_, _, rfl, rfl, hleaf (linkDefinition?_fed scope hrest) _⟩
  | table => exact ⟨_, _, rfl, rfl, hleaf (table?_fed scope hrest) _⟩
  | paragraph => exact ⟨_, _, rfl, rfl, hleaf (paragraph?_fed scope hrest) _⟩
  | text => exact ⟨_, _, rfl, rfl, hleaf (anyText_fed scope hrest) _⟩
  | directive => exact ⟨_, _, rfl, rfl, hleaf (blockDirective?_fed hrest) _⟩
  | note => exact ⟨_, _, rfl, rfl, note?_fed _ scope hrest⟩
  | division => exact ⟨_, _, rfl, rfl, division?_fed _ scope hrest⟩
  | video => exact ⟨_, _, rfl, rfl, video?_fed _ scope hrest⟩

end Construct

/-! ## One step -/

/-- What a step yields for a text and for the text with one more line feed: the same token, which
may cover the text if nothing is open at its end, or two tokens that both take everything. -/
inductive FedMatch (cs : Text) : Match Block → Match Block → Prop
  | inside {m : Match Block} (h : m.length < cs.length) : FedMatch cs m m
  | apart {m : Match Block} (h : m.length = cs.length) (hlast : cs.getLast? = some '\n')
      (hopen : m.token.endsOpen true = false) : FedMatch cs m m
  | grows {m m' : Match Block} (h : m.length = cs.length) (h' : m'.length = cs.length + 1)
      (hgrows : m.token.Grows (m.token.endsOpen true) m'.token) : FedMatch cs m m'

section Step

variable {rules : RuleSet} {nest : Option BlockReader} {scope : Scope} {cur : Cursor}

lemma Cursor.feed_spanOf {n : Nat} (h : n ≤ cur.rest.length) :
    cur.feed.spanOf n = cur.spanOf n := by
  simp only [Cursor.spanOf, Cursor.drop, Cursor.feed_point, Cursor.feed_rest,
    List.take_append_of_le_length h]

lemma FedMatch.of_fed {rule : String} {m m' : Found Block.Body}
    (h : Found.Fed (Block.Body.Feeds ⟨rule, cur.spanOf cur.rest.length⟩) cur.rest (some m)
      (some m')) :
    FedMatch cur.rest ⟨rule, .ofBody ⟨rule, cur.spanOf m.length⟩ m.value, m.length⟩
      ⟨rule, .ofBody ⟨rule, cur.feed.spanOf m'.length⟩ m'.value, m'.length⟩ := by
  cases h with
  | inside h =>
    rw [Cursor.feed_spanOf h.le]
    exact .inside h
  | apart hlast hv =>
    rw [Cursor.feed_spanOf le_rfl]
    exact .apart rfl hlast (hv _ ⟨rfl, rfl⟩).eq_false
  | grows hv => exact .grows rfl rfl (hv _ ⟨rfl, rfl⟩)

variable (hrules : rules.IsStandard) (hnest : ∀ read, nest = some read → read.TakesFeed)
  (hcolumn : 1 ≤ cur.point.column) (hrest : cur.rest ≠ []) (hgap : cur.rest.all isGap = false)

include hrules hnest hcolumn hrest hgap

variable (scope) in
/-- The first rule that matches is the same one. -/
lemma nextBlock_fed :
    nextBlock rules nest scope cur = .ok none ∧ nextBlock rules nest scope cur.feed = .ok none ∨
      ∃ m m', nextBlock rules nest scope cur = .ok (some m) ∧
        nextBlock rules nest scope cur.feed = .ok (some m') ∧ FedMatch cur.rest m m' := by
  have hblock := hrules.block
  rw [nextBlock, nextBlock]
  generalize rules.block = rs at hblock
  induction rs with
  | nil => exact .inl ⟨rfl, rfl⟩
  | cons r rs ih =>
    obtain ⟨⟨c, rfl⟩, hrest'⟩ := List.forall_mem_cons.1 hblock
    obtain ⟨m, m', hm, hm', hfed⟩ := c.recognize_fed scope hnest hcolumn hrest hgap
    simp only [firstMatch, BlockRule.attempt, hm, hm']
    cases m with
    | none =>
      cases hfed
      exact ih hrest'
    | some m =>
      cases m' with
      | none => cases hfed
      | some m' => exact .inr ⟨_, _, rfl, rfl, .of_fed hfed⟩

variable (scope) in
lemma exists_nextBlock_fed (htext : rules.HasText) :
    ∃ m m', nextBlock rules nest scope cur = .ok (some m) ∧
      nextBlock rules nest scope cur.feed = .ok (some m') ∧ 0 < m.length ∧
        FedMatch cur.rest m m' := by
  obtain ⟨m, hm, hpos⟩ : ∃ m, nextBlock rules nest scope cur = .ok (some m) ∧ 0 < m.length :=
    exists_nextBlock (fun read hread => (hnest read hread).total) hrules htext hrest
  obtain ⟨hnone, -⟩ | ⟨m₁, m', hm₁, hm', hfed⟩ :=
    nextBlock_fed scope hrules hnest hcolumn hrest hgap
  · rw [hm] at hnone
    cases hnone
  · rw [hm] at hm₁
    cases hm₁
    exact ⟨m, m', hm, hm', hpos, hfed⟩

end Step

/-! ## Whole readings -/

lemma readAll_of_all {α : Type} {next : Cursor → Except Fault (Option (Match α))} {cur : Cursor}
    {m : Match α} (hrest : cur.rest ≠ []) (hm : next cur = .ok (some m))
    (h : m.length = cur.rest.length) : (readAll next cur).tokens = [m.token] := by
  obtain ⟨rule, token, length⟩ := m
  subst h
  rw [readAll_alone hrest hm]

/-- The rule for blank lines comes first, so that no other one is asked about them. -/
def RuleSet.SkipsBlank (rules : RuleSet) : Prop :=
  rules.block.head? = some (.standard .newline)

lemma Flavor.rules_skipsBlank (f : Flavor) : f.rules.SkipsBlank := by
  cases f <;> rfl

section Reading

variable {rules : RuleSet} {nest : Option BlockReader} {scope : Scope} {cur : Cursor}

lemma nextBlock_of_blankLines (hblank : rules.SkipsBlank) {n : Nat}
    (hn : blankLines? cur.rest = some ⟨n, .newline⟩) :
    nextBlock rules nest scope cur =
      .ok (some ⟨"newline", .leaf ⟨"newline", cur.spanOf n⟩ .newline, n⟩) := by
  obtain ⟨rs, hrs⟩ := List.head?_eq_some_iff.1 hblank
  have hattempt : BlockRule.attempt nest scope cur (.standard .newline) =
      .ok ⟨some (.leaf ⟨"newline", cur.spanOf n⟩ .newline), n⟩ := by
    simp [BlockRule.attempt, BlockConstruct.recognize, hn, Found.map, Block.ofBody,
      BlockConstruct.name]
  rw [nextBlock, hrs]
  exact firstMatch_cons hattempt

variable (nest scope) in
/-- Where only white space is left, there are blank lines up to the end. -/
lemma readAll_of_gap (hblank : rules.SkipsBlank) (hgap : cur.rest.all isGap = true) :
    ∀ b ∈ (readAll (nextBlock rules nest scope) cur).tokens, b.kind = .newline := by
  refine readAll_invariant (I := fun cur => cur.rest.all isGap = true)
    (fun cur m hgap hrest hm => ?_) cur hgap
  obtain ⟨n, hn⟩ := blankLines?_of_gap hrest hgap
  rw [nextBlock_of_blankLines hblank hn] at hm
  cases hm
  exact ⟨rfl, List.all_eq_true.2 fun c hc => List.all_eq_true.1 hgap c (List.mem_of_mem_drop hc)⟩

variable (nest scope) in
/-- White space on one line is one blank line, with or without the line feed. -/
lemma readAll_of_pads (hblank : rules.SkipsBlank) (hpads : cur.rest.all isPad = true) :
    (readAll (nextBlock rules nest scope) cur).tokens.length ≤ 1 ∧
      (readAll (nextBlock rules nest scope) cur.feed).tokens.length ≤ 1 := by
  constructor
  · by_cases hrest : cur.rest = []
    · rw [readAll_nil hrest]
      exact Nat.zero_le 1
    · rw [readAll_alone hrest (nextBlock_of_blankLines hblank (blankLines?_pads hrest hpads))]
      exact le_rfl
  · rw [readAll_alone (by simp) (nextBlock_of_blankLines hblank (blankLines?_padLine hpads))]
    exact le_rfl

lemma Block.endsOpenAll_of_newline {within : Bool} {bs : List Block}
    (h : ∀ b ∈ bs, b.kind = .newline) : Block.endsOpenAll within bs = false := by
  obtain rfl | ⟨front, b, rfl⟩ := List.eq_nil_or_concat' bs
  · exact Block.endsOpenAll_nil within
  · obtain ⟨hd, rfl⟩ := Block.exists_of_newline (h b (by simp))
    have hleaf : Block.Leaf.newline.endsOpen = false := rfl
    rw [Block.endsOpenAll_concat, Block.endsOpen_leaf, hleaf, Bool.and_false]

lemma Cursor.feed_drop {n : Nat} (h : n ≤ cur.rest.length) :
    cur.feed.drop n = (cur.drop n).feed := by
  simp only [Cursor.drop, Cursor.feed, List.take_append_of_le_length h, drop_feed h]

variable (hrules : rules.IsStandard) (htext : rules.HasText) (hblank : rules.SkipsBlank)
  (hnest : ∀ read, nest = some read → read.TakesFeed)

include hrules htext hnest

lemma readAll_ne_nil (hrest : cur.rest ≠ []) :
    (readAll (nextBlock rules nest scope) cur).tokens ≠ [] := by
  obtain ⟨m, hm, hpos⟩ : ∃ m, nextBlock rules nest scope cur = .ok (some m) ∧ 0 < m.length :=
    exists_nextBlock (fun read hread => (hnest read hread).total) hrules htext hrest
  rw [readAll_cons hrest hm hpos]
  exact List.cons_ne_nil _ _

/-- The blocks of whole lines have nothing open at their end. -/
lemma readAll_closed (hends : EndsLine cur.rest) :
    Block.endsOpenAll false (readAll (nextBlock rules nest scope) cur).tokens = false := by
  fun_induction readAll (nextBlock rules nest scope) cur with
  | case1 | case2 | case3 | case4 => simp
  | case5 cur hrest m hm hlen rest ih =>
    have hleft : (cur.drop m.length).rest <:+ cur.rest := List.drop_suffix _ _
    by_cases hall : (cur.drop m.length).rest = []
    · obtain ⟨c, found, -, hfound, rfl⟩ := nextBlock_some hrules hm
      have hle : found.length ≤ cur.rest.length :=
        (BlockConstruct.recognize_fits hrest hfound).2
      have hlength : found.length = cur.rest.length :=
        le_antisymm hle (List.drop_eq_nil_iff.1 hall)
      rw [show rest = ⟨[], none⟩ from readAll_nil hall, Block.endsOpenAll_singleton]
      exact BlockConstruct.recognize_closed hnest hends hrest hfound hlength
    · rw [Block.endsOpenAll_cons _ _ (readAll_ne_nil hrules htext hnest hall)]
      exact ih (hends.suffix hleft)

include hblank

variable (cur) in
/-- **What a reading makes of one more line feed.**  By induction on the steps: as long as a token
ends in front of the end, it is the same. -/
theorem readAll_fed (hcolumn : 1 ≤ cur.point.column) {bs bs' : List Block}
    (hbs : (readAll (nextBlock rules nest scope) cur).tokens = bs)
    (hbs' : (readAll (nextBlock rules nest scope) cur.feed).tokens = bs') :
    GrowsAtEnd (Block.endsOpenAll true bs) (Block.Grows (Block.endsOpenAll true bs)) bs bs' := by
  induction hn : cur.rest.length using Nat.strong_induction_on generalizing cur bs bs' with
  | _ n ih =>
    cases hgap : cur.rest.all isGap with
    | true =>
      have hgap' : cur.feed.rest.all isGap = true := by
        rw [Cursor.feed_rest, List.all_append, hgap]
        rfl
      have hnewline := hbs ▸ readAll_of_gap nest scope hblank hgap
      have hnewline' := hbs' ▸ readAll_of_gap nest scope hblank hgap'
      rw [Block.endsOpenAll_of_newline hnewline]
      exact .feeds rfl hnewline hnewline'
    | false =>
      have hrest : cur.rest ≠ [] := by
        intro hnil
        rw [hnil] at hgap
        cases hgap
      have hrest' : cur.feed.rest ≠ [] := by simp
      obtain ⟨m, m', hm, hm', hpos, hfed⟩ :=
        exists_nextBlock_fed scope hrules hnest hcolumn hrest hgap htext
      cases hfed with
      | inside h =>
        rw [readAll_cons hrest hm hpos] at hbs
        rw [readAll_cons hrest' hm' hpos, Cursor.feed_drop h.le] at hbs'
        have hleft : (cur.drop m.length).rest ≠ [] := by
          rw [Cursor.drop, Ne, List.drop_eq_nil_iff]
          omega
        have hlt : (cur.drop m.length).rest.length < n := by
          rw [Cursor.drop, List.length_drop]
          omega
        have hgrows := ih _ hlt _ (Point.one_le_column_advance hcolumn _) rfl rfl rfl
        rw [← hbs, ← hbs', Block.endsOpenAll_cons _ _ (readAll_ne_nil hrules htext hnest hleft)]
        exact .cons m.token hgrows
      | apart h hlast hopen =>
        have hdone : (cur.drop m.length).rest = [] := List.drop_eq_nil_iff.2 h.ge
        have hleft : (cur.feed.drop m.length).rest.all isGap = true := by
          rw [Cursor.feed_drop h.le, Cursor.feed_rest, hdone]
          rfl
        have hnewline := readAll_of_gap nest scope hblank hleft
        rw [← hbs, ← hbs', readAll_of_all hrest hm h, readAll_cons hrest' hm' hpos,
          Block.endsOpenAll_singleton, hopen]
        exact .cons m.token (.feeds rfl (by simp) hnewline)
      | grows h h' hgrows =>
        have hall' : m'.length = cur.feed.rest.length := by rw [h', Cursor.feed_rest]; simp
        rw [← hbs, ← hbs', readAll_of_all hrest hm h, readAll_of_all hrest' hm' hall',
          Block.endsOpenAll_singleton]
        exact .last hgrows

variable (cur) in
/-- A text that ends in a line with something to read is one block with the line feed if it is one
without it. -/
lemma readAll_several (hcolumn : 1 ≤ cur.point.column) (hends : EndsWithin cur.rest) :
    1 < (readAll (nextBlock rules nest scope) cur).tokens.length ↔
      1 < (readAll (nextBlock rules nest scope) cur.feed).tokens.length := by
  cases hgap : cur.rest.all isGap with
  | true =>
    have hfeed : '\n' ∉ cur.rest := by
      obtain hfeed | ⟨before, line, hrest, -, hline⟩ := hends
      · exact hfeed
      · rw [hrest, List.all_append, Bool.and_eq_true] at hgap
        exact absurd (isBlank_of_gap hgap.2) (ne_true_of_eq_false hline)
    obtain ⟨hone, hone'⟩ := readAll_of_pads nest scope hblank (all_isPad_of_gap hfeed ▸ hgap)
    exact iff_of_false hone.not_gt hone'.not_gt
  | false =>
    have hrest : cur.rest ≠ [] := by
      intro hnil
      rw [hnil] at hgap
      cases hgap
    have hrest' : cur.feed.rest ≠ [] := by simp
    obtain ⟨m, m', hm, hm', hpos, hfed⟩ :=
      exists_nextBlock_fed scope hrules hnest hcolumn hrest hgap htext
    cases hfed with
    | inside h =>
      have hmore (cur : Cursor) (hrest : cur.rest ≠ []) :
          0 < (readAll (nextBlock rules nest scope) cur).tokens.length :=
        List.length_pos_iff.2 (readAll_ne_nil hrules htext hnest hrest)
      have hleft : (cur.drop m.length).rest ≠ [] := by
        rw [Cursor.drop, Ne, List.drop_eq_nil_iff]
        omega
      rw [readAll_cons hrest hm hpos, readAll_cons hrest' hm' hpos, Cursor.feed_drop h.le]
      exact iff_of_true (Nat.succ_lt_succ (hmore _ hleft)) (Nat.succ_lt_succ (hmore _ (by simp)))
    | apart h hlast => exact absurd hlast hends.getLast?
    | grows h h' =>
      have hall' : m'.length = cur.feed.rest.length := by rw [h', Cursor.feed_rest]; simp
      rw [readAll_of_all hrest hm h, readAll_of_all hrest' hm' hall']
      rfl

/-- **Readers take a line feed at the end.** -/
lemma runBlocks_takesFeed : BlockReader.TakesFeed
    fun scope text origin => (runBlocks rules nest scope text origin).toExcept where
  total scope text origin := ⟨_, Run.toExcept_of_fault_none (runBlocks_fault
    (fun read hread => (hnest read hread).total) hrules htext scope text origin)⟩
  closed hends h := by
    obtain ⟨-, rfl⟩ := Run.tokens_of_toExcept h
    exact readAll_closed hrules htext hnest hends
  grows scope text origin hcolumn := by
    have hfault (text : Text) := Run.toExcept_of_fault_none (runBlocks_fault
      (fun read hread => (hnest read hread).total) hrules htext scope text origin)
    refine ⟨_, _, hfault text, hfault _, ?_, fun hends => ?_⟩
    · exact readAll_fed (.ofText text origin) hrules htext hblank hnest hcolumn rfl rfl
    · exact readAll_several (.ofText text origin) hrules htext hblank hnest hcolumn hends

end Reading

/-! ## The second pass -/

section Resolve

variable {read : InlineReader} {b b' d d' : Block}

lemma kind_newline_of_resolve (hb : b.kind = .newline) (h : b.resolve read = .ok d) :
    d.kind = .newline := by
  obtain ⟨hd, rfl⟩ := Block.exists_of_newline hb
  cases h
  rfl

/-- What grows at its end is completed to what grows at its end. -/
lemma GrowsAtEnd.resolve {shown : Bool} {bs bs' ds ds' : List Block}
    (h : GrowsAtEnd shown
      (fun b b' => ∀ d d', b.resolve read = .ok d → b'.resolve read = .ok d' → d.Grows shown d')
      bs bs')
    (hds : List.Forall₂ (fun b d => b.resolve read = .ok d) bs ds)
    (hds' : List.Forall₂ (fun b d => b.resolve read = .ok d) bs' ds') :
    GrowsAtEnd shown (Block.Grows shown) ds ds' := by
  have hnewline {bs ds : List Block} (hbs : ∀ b ∈ bs, b.kind = .newline)
      (hds : List.Forall₂ (fun b d => b.resolve read = .ok d) bs ds) :
      ∀ d ∈ ds, d.kind = .newline := by
    intro d hd
    obtain ⟨b, hb, hres⟩ := exists_of_mem_forall₂ hds d hd
    exact kind_newline_of_resolve (hbs b hb) hres
  induction h generalizing ds ds' with
  | feeds hshown hbs hbs' => exact .feeds hshown (hnewline hbs hds) (hnewline hbs' hds')
  | last h =>
    cases hds with
    | cons hd hnil =>
      cases hnil
      cases hds' with
      | cons hd' hnil =>
        cases hnil
        exact .last (h _ _ hd hd')
  | cons b _ ih =>
    cases hds with
    | cons hd hds =>
      cases hds' with
      | cons hd' hds' =>
        rw [hd] at hd'
        cases hd'
        exact .cons _ (ih hds hds')

lemma Block.Leaf.Grows.resolve {shown : Bool} {h h' : Head} {l l' : Block.Leaf}
    (hh : h.Agrees h') (hl : l.Grows shown l') (hres : (Block.leaf h l).resolve read = .ok d)
    (hres' : (Block.leaf h' l').resolve read = .ok d') : d.Grows shown d' := by
  -- what is completed becomes the same leaf in both trees
  have hpending {p p' : Pending} (hshown : shown = false)
      (hsame : p'.complete read h'.rule = p.complete read h.rule)
      (hres : (Block.leaf h (.pending p)).resolve read = .ok d)
      (hres' : (Block.leaf h' (.pending p')).resolve read = .ok d') : d.Grows shown d' := by
    rw [Block.resolve] at hres hres'
    obtain ⟨l₁, hl₁, rfl⟩ := exists_of_map_ok hres
    obtain ⟨l₂, hl₂, rfl⟩ := exists_of_map_ok hres'
    rw [hsame, hl₁] at hl₂
    cases hl₂
    exact .leaf hh (.refl hshown _)
  cases hl with
  | refl hshown =>
    cases l with
    | pending p => exact hpending hshown (by rw [hh.1]) hres hres'
    | _ =>
      cases hres
      cases hres'
      exact .leaf hh (.refl hshown _)
  | table hshown => exact hpending hshown rfl hres hres'
  | html hraw =>
    cases hres
    cases hres'
    exact .leaf hh (.html hraw)

/-- Trees that grow are completed to trees that grow: the source that is kept with a table is not
read. -/
theorem Block.Grows.resolve {shown : Bool} (h : b.Grows shown b') :
    ∀ d d', b.resolve read = .ok d → b'.resolve read = .ok d' → d.Grows shown d' := by
  refine Block.Grows.induction ?_ ?_ h
  · intro hd hd' l l' hh hl d d' hres hres'
    exact hl.resolve hh hres hres'
  · intro hd hd' f bs bs' hh hitem hbs d d' hres hres'
    rw [Block.resolve] at hres hres'
    obtain ⟨ds, hds, rfl⟩ := exists_of_map_ok hres
    obtain ⟨ds', hds', rfl⟩ := exists_of_map_ok hres'
    have hall := Block.resolveAll_forall₂ hds
    have hall' := Block.resolveAll_forall₂ hds'
    refine .node hh ?_ (hbs.resolve hall hall')
    rwa [← hall.length_eq, ← hall'.length_eq]

/-- The second pass makes no raw HTML, so that the same leaf is open at the end. -/
lemma Block.endsOpen_of_resolve (h : b.resolve read = .ok d) (within : Bool) :
    d.endsOpen within = b.endsOpen within := by
  have hall {bs ds : List Block} (hds : List.Forall₂ (fun b d => b.resolve read = .ok d) bs ds)
      (ih : ∀ b ∈ bs, ∀ {d}, b.resolve read = .ok d →
        ∀ within, d.endsOpen within = b.endsOpen within) (within : Bool) :
      Block.endsOpenAll within ds = Block.endsOpenAll within bs := by
    induction hds with
    | nil => rfl
    | @cons b d bs ds hb hbs hrest =>
      cases hbs with
      | nil => rw [endsOpenAll_singleton, endsOpenAll_singleton, ih b List.mem_cons_self hb]
      | cons =>
        rw [endsOpenAll_cons _ _ (List.cons_ne_nil _ _),
          endsOpenAll_cons _ _ (List.cons_ne_nil _ _)]
        exact hrest fun b hmem => ih b (List.mem_cons_of_mem _ hmem)
  induction b using Block.induction generalizing d within with
  | leaf hd l =>
    cases l with
    | pending p =>
      rw [Block.resolve] at h
      obtain ⟨l, hl, rfl⟩ := exists_of_map_ok h
      obtain ⟨hkind, -⟩ := Pending.complete_leaf hl
      have hhtml : l.kind ≠ .html := by
        intro hhtml
        rw [hhtml] at hkind
        exact absurd hkind (by decide)
      rw [endsOpen_leaf, endsOpen_leaf, Leaf.endsOpen_of_kind hhtml]
      rfl
    | _ =>
      cases h
      rfl
  | node hd f bs ih =>
    rw [Block.resolve] at h
    obtain ⟨ds, hds, rfl⟩ := exists_of_map_ok h
    rw [endsOpen_node, endsOpen_node]
    exact hall (Block.resolveAll_forall₂ hds) (fun b hb _ => ih b hb) _

end Resolve

/-! ## Documents -/

/-- A line feed at the end of a text defines nothing. -/
lemma addBlocks_grows {shown : Bool} {bs bs' : List Block}
    (h : GrowsAtEnd shown (Block.Grows shown) bs bs') (defs : Definitions) :
    defs.addBlocks bs' = defs.addBlocks bs := by
  have hfeeds {bs : List Block} (hbs : ∀ b ∈ bs, b.kind = .newline) (defs : Definitions) :
      defs.addBlocks bs = defs := by
    induction bs with
    | nil => rfl
    | cons b bs ih =>
      obtain ⟨hb, hrest⟩ := List.forall_mem_cons.1 hbs
      obtain ⟨hd, rfl⟩ := Block.exists_of_newline hb
      exact ih hrest
  induction h generalizing defs with
  | feeds _ hbs hbs' => rw [hfeeds hbs, hfeeds hbs']
  | last h => 
    cases h with
    | @leaf _ _ l _ _ hl =>
      cases hl with
      | refl => cases l <;> rfl
      | table | html => rfl
    | node => rfl
  | cons b _ ih => exact ih _

/-- **Reading a text with one more line feed.**  The tree grows at its end, and the line feed shows
if the last leaf is raw HTML that ends open. -/
theorem readWith_fed {rules : RuleSet} (hrules : rules.IsStandard) (htext : rules.HasText)
    (hblank : rules.SkipsBlank) {defs : Definitions} {scope : Scope} {text : Text}
    (hlast : text.getLast? ≠ some '\n') {root root' : Block}
    (h : (readWith rules defs scope text).1 = .ok root)
    (h' : (readWith rules defs scope (text ++ ['\n'])).1 = .ok root') :
    root.Grows (root.endsOpen true) root' := by
  obtain ⟨bs, hbs, hres⟩ := exists_of_readWith h
  obtain ⟨bs', hbs', hres'⟩ := exists_of_readWith h'
  have hnest (read : BlockReader) (hread : nestedBlocks rules scope = some read) : read.TakesFeed :=
    nestedBlocks_induction (fun _ hnest => runBlocks_takesFeed hrules htext hblank hnest) hread
  have hgrows := readAll_fed (.ofText text Point.start) hrules htext hblank hnest le_rfl hbs hbs'
  have hopen : root.endsOpen true = Block.endsOpenAll true bs := by
    rw [Block.endsOpen_of_resolve hres, Block.ofDocument, Block.endsOpen_node]
    by_cases hne : text = []
    · subst hne
      rw [← hbs, show (scanBlocks rules scope [] Point.start).tokens = [] from
        congrArg Run.tokens (readAll_nil rfl), Block.endsOpenAll_nil, Block.endsOpenAll_nil]
    · rw [bne_iff_ne.2 (Point.column_advance_ne_one le_rfl hne hlast)]
      rfl
  rw [addBlocks_grows hgrows] at hres'
  rw [hopen]
  have hdocument : (Block.ofDocument text bs).Grows (Block.endsOpenAll true bs)
      (Block.ofDocument (text ++ ['\n']) bs') :=
    .node ⟨rfl, rfl⟩ (absurd · Bool.false_ne_true) hgrows
  exact hdocument.resolve _ _ hres hres'

end Docmark
