import Mathlib
import Docmark.Proofs.Container.Gleaning
import Docmark.Proofs.Container.Quote
import Docmark.Proofs.Reading.Choice
import Docmark.Proofs.Reading.Nesting
import Docmark.Proofs.Reading.Passes

/-!
# Quotes take marks

A line belongs to a quote if a mark is the first thing in it, behind any white space; its mark is
taken off behind blanks only.  Where the two agree, each quote takes a mark from its first line, so
no more quotes lie inside each other than there are marks in the text.  `MarksShow` is what makes
them agree, and everything that containers glean from a text has it if the text does
(`MarksShow.gleaned`).

Other white space in front of a mark is skipped when the quote is found and kept when the mark is
taken off.  The content of the quote is then the same quote again, down to the last level of
nesting.

## Main results

* `quotes_take_marks` — where marks show, quotes inside each other are at most as many as the marks,
  and the content of a quote is shorter than the quote and has fewer marks.
* `quoted_over_again` — one mark, and a hundred quotes.
-/

namespace Docmark

/-! ## Marks that show -/

/-- In front of a quote mark, no white space within the line is other than blanks and tabs. -/
def MarksShow (cs : Text) : Prop :=
  ∀ space, (∀ c ∈ space, isSpace c = true ∧ c ≠ '\n') → space ++ ['>'] <:+: cs →
    ∀ c ∈ space, isPad c = true

namespace MarksShow

variable {cs : Text}

/-- All marks of a text show whose white space is blanks, tabs and line feeds. -/
lemma of_plain (h : cs.all (fun c => !isSpace c || isPad c || c == '\n') = true) :
    MarksShow cs := by
  intro space hspace hcs c hc
  obtain ⟨hc', hfeed⟩ := hspace c hc
  have hplain := List.all_eq_true.1 h c (hcs.subset (List.mem_append_left _ hc))
  simpa [hc', hfeed] using hplain

lemma mono {part : Text} (h : MarksShow cs) (hpart : part <:+: cs) : MarksShow part :=
  fun space hspace hin => h space hspace (hin.trans hpart)

/-- Marks that show in a text show in what a container gleans from it. -/
lemma gleaned {content : Text} (h : MarksShow cs) (hcontent : Gleaned (lines cs) content) :
    MarksShow content := by
  intro space hspace hin
  have hfeed : '\n' ∉ space ++ ['>'] := by
    intro hmem
    rcases List.mem_append.1 hmem with hmem | hmem
    · exact (hspace _ hmem).2 rfl
    · exact absurd (List.mem_singleton.1 hmem) (by decide)
  obtain ⟨l, hl, hline⟩ := hcontent.exists_infix (lines_areLines cs) hin hfeed (by simp)
  refine h space hspace (hline.trans ?_)
  rw [← lines_flatten cs]
  exact List.infix_of_mem_flatten hl

end MarksShow

/-! ## Taking marks off -/

lemma quotedLine_suffix (line : Text) : quotedLine line <:+ line := by
  rw [quotedLine]
  split
  · obtain ⟨front, -, hline⟩ := stripQuoteMark_losesFront line
    exact ⟨front, hline.symm⟩
  · exact List.dropWhile_suffix _

/-- Behind blanks the mark is taken off. -/
lemma stripQuoteMark_suffix {blanks after : Text} (h : ∀ c ∈ blanks, c = ' ') :
    stripQuoteMark (blanks ++ '>' :: after) <:+ after := by
  have hbody : (blanks ++ '>' :: after).dropWhile (fun c => decide (c = ' ')) = '>' :: after := by
    rw [List.dropWhile_append_of_pos (by simpa using h)]
    rfl
  simp only [stripQuoteMark, hbody]
  split
  · exact List.suffix_cons _ _
  · exact List.suffix_cons _ _
  · exact List.suffix_rfl

/-- A line of a quote has its mark behind white space. -/
lemma exists_mark_of_startsQuote {line : Text} (h : startsQuote line = true) :
    ∃ space after, line = space ++ '>' :: after ∧ (∀ c ∈ space, isSpace c = true) ∧
      indentation line ≤ 3 := by
  simp only [startsQuote, Bool.and_eq_true, decide_eq_true_eq, beq_iff_eq] at h
  obtain ⟨hindent, hmark⟩ := h
  obtain ⟨after, hafter⟩ := List.head?_eq_some_iff.1 hmark
  refine ⟨line.takeWhile isSpace, after, ?_, fun c => List.mem_takeWhile_imp, hindent⟩
  rw [← hafter]
  exact List.takeWhile_append_dropWhile.symm

/-- If its mark shows, the first line of a quote loses it. -/
lemma cons_quotedLine_sublist {line : Text} (hmarks : MarksShow line)
    (hfeed : '\n' ∉ line.dropLast) (h : startsQuote line = true) :
    ('>' :: quotedLine line).Sublist line := by
  rw [quotedLine, if_pos h]
  obtain ⟨space, after, rfl, hspace, hindent⟩ := exists_mark_of_startsQuote h
  have hinside : ∀ c ∈ space, isSpace c = true ∧ c ≠ '\n' := by
    intro c hc
    refine ⟨hspace c hc, ?_⟩
    rintro rfl
    rw [List.dropLast_append_of_ne_nil (List.cons_ne_nil _ _)] at hfeed
    exact hfeed (List.mem_append_left _ hc)
  have hpads : ∀ c ∈ space, isPad c = true := hmarks space hinside ⟨[], after, by simp⟩
  have hblanks : ∀ c ∈ space, c = ' ' := eq_blank_of_indentFrom_le hpads hindent
  have hafter : ('>' :: stripQuoteMark (space ++ '>' :: after)).Sublist ('>' :: after) :=
    (stripQuoteMark_suffix hblanks).sublist.cons_cons '>'
  exact hafter.trans (List.sublist_append_right space _)

/-- **A quote takes a mark.**  Where marks show, a quote holds its content and a mark more. -/
lemma cons_quotedText_sublist {cs : Text} (hmarks : MarksShow cs)
    (hquote : quoteLines (lines cs) ≠ []) :
    ('>' :: quotedText (quoteLines (lines cs))).Sublist (quoteLines (lines cs)).flatten := by
  cases hlines : lines cs with
  | nil =>
    rw [hlines] at hquote
    exact absurd rfl hquote
  | cons line ls =>
    rw [hlines, quoteLines] at hquote
    rw [quoteLines]
    split
    next hfirst =>
      have hin : line <:+: cs := by
        rw [← lines_flatten cs, hlines]
        exact List.infix_of_mem_flatten List.mem_cons_self
      have hfeed : '\n' ∉ line.dropLast :=
        (lines_areLines cs).feed_not_mem line (hlines ▸ List.mem_cons_self)
      have hline := cons_quotedLine_sublist (hmarks.mono hin) hfeed hfirst
      have hrest (run : List Text) : (run.flatMap quotedLine).Sublist run.flatten := by
        induction run with
        | nil => exact List.Sublist.slnil
        | cons l run ih => exact (quotedLine_suffix l).sublist.append ih
      exact hline.append (hrest _)
    next hfirst =>
      rw [if_neg hfirst] at hquote
      exact absurd rfl hquote

/-! ## Quotes inside each other -/

/-- Whether a token is a quote. -/
def Token.isQuote : Token → Bool
  | .block b => b.kind == .blockquote
  | .inline _ => false

/-- Counts quotes. -/
def Weight.quotes : Weight where
  block k := (k == .blockquote).toNat
  inline _ := 0

lemma countP_isQuote (branch : List Token) :
    branch.countP Token.isQuote = (branch.map Weight.quotes.ofToken).sum :=
  Weight.countP_eq_sum (by rintro (b | t) <;> rfl) branch

lemma Block.Leaf.quotes_height (c : Block.Leaf) : c.height .quotes = 0 := by
  have hkind : Weight.quotes.block c.kind = 0 := by cases c <;> rfl
  have hrows : Inline.heightRows .quotes c.inlines ≤ 0 := by
    refine Inline.heightRows_le.2 fun ts _ => Inline.heightAll_le.2 fun t _ => ?_
    exact (Inline.height_eq_zero.2 fun _ _ => rfl).le
  rw [Block.Leaf.height, hkind, Nat.zero_add]
  exact Nat.le_zero.1 hrows

/-- The second pass makes no quotes. -/
lemma Block.quotes_height_of_resolve {read : InlineReader} {b b' : Block}
    (h : b.resolve read = .ok b') {n : Nat} (hb : b.height .quotes ≤ n) :
    b'.height .quotes ≤ n := by
  induction b using Block.induction generalizing n b' with
  | leaf hd c =>
    cases b' with
    | leaf hd' c' =>
      rw [Block.height_leaf, Block.Leaf.quotes_height]
      exact Nat.zero_le n
    | node hd' f bs' =>
      obtain ⟨bs, hnode, -⟩ := exists_of_resolve_node h
      cases hnode
  | node hd f bs ih =>
    rw [Block.resolve] at h
    obtain ⟨bs', hbs', rfl⟩ := exists_of_map_ok h
    rw [Block.height_node] at hb ⊢
    have hall : Block.heightAll .quotes bs' ≤ Block.heightAll .quotes bs := by
      refine Block.heightAll_le.2 fun b' hb' => ?_
      obtain ⟨b, hmem, hres⟩ := exists_of_mem_forall₂ (Block.resolveAll_forall₂ hbs') b' hb'
      exact ih b hmem hres (Block.heightAll_le.1 le_rfl b hmem)
    exact (Nat.add_le_add_left hall _).trans hb

lemma Block.Frame.quotes_of_gathers {f : Block.Frame} (h : f.gathers = true) :
    Weight.quotes.block f.kind = 0 := by
  cases f with
  | note => rfl
  | division => rfl
  | _ => cases h

/-- A callout that gathers a block holds no more quotes inside each other than before, or than the
block. -/
lemma quotes_height_of_appendToCallout? {callout b grown : Block} {n : Nat}
    (h : appendToCallout? callout b = some grown) (hcallout : callout.height .quotes ≤ n)
    (hb : b.height .quotes ≤ n) : grown.height .quotes ≤ n := by
  obtain ⟨hd, f, kids, rfl, hf, rfl⟩ := exists_of_appendToCallout? h
  rw [Block.height_node, Block.Frame.quotes_of_gathers hf] at hcallout ⊢
  simp only [Block.heightAll_append, Block.heightAll_cons, Block.heightAll_nil]
  omega

/-- The quotes inside each other in a block of a text are at most as many as its marks, if these
show. -/
def Block.TakesMarks (text : Text) (b : Block) : Prop :=
  MarksShow text → b.height .quotes ≤ text.count '>'

section FirstPass

variable {scope : Scope} {cur : Cursor} {head : Head} {m : Found Block.Body}

lemma takesMarks_blockquote {read : BlockReader}
    (hread : BlockReader.Reads read fun _ => Block.TakesMarks)
    (h : blockquote? read scope cur = .ok (some m)) :
    (Block.ofBody head m.value).TakesMarks cur.rest := by
  intro hmarks
  obtain ⟨hquote, bs, hbs, rfl⟩ := exists_of_blockquote? h
  have hinside := hmarks.gleaned (quotedText_gleaned cur.rest)
  have hcontent : Block.heightAll .quotes (groupCallouts bs) ≤
      (quotedText (quoteLines (lines cur.rest))).count '>' :=
    Block.heightAll_le.2 (groupCallouts_keeps (fun _ _ _ => quotes_height_of_appendToCallout?)
      fun b hb => hread _ _ _ _ hbs b hb hinside)
  have hmark := (cons_quotedText_sublist hmarks hquote).count_le '>'
  have hlines := (flatten_initial (quoteLines_initial (lines cur.rest))).sublist.count_le '>'
  rw [List.count_cons_self] at hmark
  have hframe : Weight.quotes.block Block.Frame.blockquote.kind = 1 := rfl
  simp only [Block.ofBody, Block.height_node, hframe]
  omega

lemma takesMarks_list {read : BlockReader}
    (hread : BlockReader.Reads read fun _ => Block.TakesMarks)
    (h : list? read scope cur = .ok (some m)) :
    (Block.ofBody head m.value).TakesMarks cur.rest := by
  intro hmarks
  obtain ⟨marker, scan, items, hscan, hitems, hvalue⟩ := exists_of_list? h
  have hitem : ∀ b ∈ items, b.height .quotes ≤ cur.rest.count '>' := by
    intro b hb
    obtain ⟨item, hmem, hitem⟩ := exists_of_mem_forall₂ hitems b hb
    obtain ⟨hd, bs, hbs, rfl⟩ := exists_of_readItem hitem
    have hgleaned := listScan?_gleaned hscan item hmem
    have htask := splitTask_suffix item.content
    have hcontent : Block.heightAll .quotes bs ≤ (splitTask item.content).2.count '>' :=
      Block.heightAll_le.2 fun b hb =>
        hread _ _ _ _ hbs b hb ((hmarks.gleaned hgleaned).mono htask.isInfix)
    have hcount := hgleaned.count_le (c := '>') (by decide)
    rw [lines_flatten] at hcount
    rw [Block.height_node]
    exact (Nat.zero_add _).trans_le (hcontent.trans ((htask.sublist.count_le '>').trans hcount))
  rw [hvalue, Block.ofBody, Block.height_node]
  exact (Nat.zero_add _).trans_le (Block.heightAll_le.2 hitem)

/-- Whatever the constructs make of a text, its quotes take marks from it, if they do so in what the
reader yields. -/
lemma BlockConstruct.recognize_takesMarks {nest : Option BlockReader}
    (hnest : ∀ read, nest = some read → BlockReader.Reads read fun _ => Block.TakesMarks)
    {c : BlockConstruct} (h : c.recognize nest scope cur = .ok (some m)) :
    (Block.ofBody head m.value).TakesMarks cur.rest := by
  rcases c.recognize_cases h with
    ⟨read, hread, hquote⟩ | ⟨read, hread, hlist⟩ | ⟨f, hvalue, hf, -⟩ | ⟨l, hvalue, -⟩
  · exact takesMarks_blockquote (hnest read hread) hquote
  · exact takesMarks_list (hnest read hread) hlist
  · intro _
    rw [hvalue, Block.ofBody, Block.height_node, Block.Frame.quotes_of_gathers hf]
    exact Nat.zero_le _
  · intro _
    rw [hvalue, Block.ofBody, Block.height_leaf, Block.Leaf.quotes_height]
    exact Nat.zero_le _

end FirstPass

lemma scanBlocks_takesMarks {rules : RuleSet} (hrules : rules.IsStandard) (scope : Scope)
    (text : Text) (origin : Point) :
    ∀ b ∈ (scanBlocks rules scope text origin).tokens, b.TakesMarks text := by
  refine scanBlocks_picks (P := fun _ => Block.TakesMarks) hrules ?_
    (fun _ hnest _ _ _ _ hpick => BlockConstruct.recognize_takesMarks hnest hpick.1)
    scope text origin
  intro _ before rest b hb hmarks
  have hrest : rest <:+ before ++ rest := List.suffix_append _ _
  exact (hb (hmarks.mono hrest.isInfix)).trans (hrest.sublist.count_le '>')

/-! ## Documents -/

section Documents

variable {rules : RuleSet} {text : Text}

/-- **Quotes take marks.**  Let only blanks and tabs stand as white space in front of any quote mark
within its line.  On no branch of the tree that is read from the text are there more quotes than the
text has marks.  Wherever in the text a quote is recognised, the content that it hands on is shorter
than the text that it takes, has fewer marks, and again has blanks and tabs only in front of
them. -/
theorem quotes_take_marks (hrules : rules.IsStandard) (hmarks : MarksShow text) :
    (∀ defs scope root, (readWith rules defs scope text).1 = .ok root →
      ∀ branch, root.HasBranch branch → branch.countP Token.isQuote ≤ text.count '>') ∧
    ∀ read scope (cur : Cursor) m, cur.rest <:+ text →
      blockquote? read scope cur = .ok (some m) →
        ∃ content bs, read (scope.nested Scope.isBlockQuote) content cur.point = .ok bs ∧
          m.value = .node .blockquote (groupCallouts bs) ∧
          content.length < m.length ∧
          content.count '>' < (cur.rest.take m.length).count '>' ∧ MarksShow content := by
  constructor
  · intro defs scope root h branch hbranch
    obtain ⟨bs, hbs, hres⟩ := exists_of_readWith h
    have hheight : (Block.ofDocument text bs).height .quotes ≤ text.count '>' := by
      rw [Block.ofDocument, Block.height_node]
      refine (Nat.zero_add _).trans_le (Block.heightAll_le.2 fun b hb => ?_)
      rw [← hbs] at hb
      exact scanBlocks_takesMarks hrules scope text Point.start b hb hmarks
    rw [countP_isQuote]
    exact hbranch.sum_le.trans (Block.quotes_height_of_resolve hres hheight)
  · intro read scope cur m hcur h
    have hmarks : MarksShow cur.rest := hmarks.mono hcur.isInfix
    obtain ⟨hquote, bs, hbs, rfl⟩ := exists_of_blockquote? h
    have hsublist := cons_quotedText_sublist hmarks hquote
    have hcount := hsublist.count_le '>'
    have htake := List.prefix_iff_eq_take.1 (flatten_initial (quoteLines_initial (lines cur.rest)))
    rw [List.count_cons_self, htake] at hcount
    exact ⟨_, bs, hbs, rfl, hsublist.length_le, hcount,
      hmarks.gleaned (quotedText_gleaned cur.rest)⟩

/-- A quoted list that holds a quote: two marks and two quotes. -/
theorem quotes_take_marks_dfm :
    dfmRules.IsStandard ∧ MarksShow (quoted "- > a\n".toList) ∧
    (∃ root, (readWith dfmRules [] Scope.document (quoted "- > a\n".toList)).1 = .ok root ∧
      ∀ branch, root.HasBranch branch →
        branch.countP Token.isQuote ≤ (quoted "- > a\n".toList).count '>') ∧
    ∃ m, blockquote? (readBlocks dfmRules) Scope.document
        (Cursor.ofText (quoted "- > a\n".toList) Point.start) = .ok (some m) ∧
      ∃ content bs, readBlocks dfmRules (Scope.document.nested Scope.isBlockQuote) content
          Point.start = .ok bs ∧
        m.value = .node .blockquote (groupCallouts bs) ∧ content.length < m.length ∧
        content.count '>' < ((quoted "- > a\n".toList).take m.length).count '>' ∧
        MarksShow content := by
  have hrules : dfmRules.IsStandard := Flavor.rules_isStandard .dfm
  have htext : dfmRules.HasText := Flavor.rules_hasText .dfm
  have hmarks : MarksShow (quoted "- > a\n".toList) := .of_plain (by decide)
  obtain ⟨hbranches, hcontent⟩ := quotes_take_marks hrules hmarks
  obtain ⟨root, hroot⟩ := exists_readWith hrules htext [] Scope.document (quoted "- > a\n".toList)
  obtain ⟨bs, hbs⟩ := exists_readBlocks hrules htext (Scope.document.nested Scope.isBlockQuote)
    "- > a\n".toList Point.start
  have hquote := blockquote?_quoted (by decide) hbs
  exact ⟨hrules, hmarks, ⟨root, hroot, hbranches [] Scope.document root hroot⟩, _, hquote,
    hcontent _ _ _ _ List.suffix_rfl hquote⟩

end Documents

/-- **Quoted over again.**  A mark behind a no-break space is found and is not taken off, so the
content of the quote is the text that the quote takes, on all hundred levels of nesting. -/
theorem quoted_over_again :
    "\u00a0> x\n".toList.count '>' = 1 ∧
    ∃ root, (readWith Flavor.markdown.rules [] Scope.document "\u00a0> x\n".toList).1 = .ok root ∧
      ∃ branch, root.HasBranch branch ∧ branch.countP Token.isQuote = 100 := by
  have hread : ∃ root, (readWith Flavor.markdown.rules [] Scope.document
      "\u00a0> x\n".toList).1 = .ok root ∧ root.height .quotes = 100 := by
    decide +kernel
  obtain ⟨root, hroot, hheight⟩ := hread
  obtain ⟨branch, hbranch, hsum⟩ := root.exists_branch .quotes
  exact ⟨by decide, root, hroot, branch, hbranch, by rw [countP_isQuote, hsum, hheight]⟩

end Docmark
