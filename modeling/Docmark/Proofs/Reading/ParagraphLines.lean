import Mathlib
import Docmark.Proofs.Reading.Agreement
import Docmark.Proofs.Text.Lines

/-!
# Where paragraphs end

A paragraph does not try the rules for other blocks on its further lines; it tests each line by its
own means, and runs on up to a line that is blank or passes one of the tests.  Each test accepts
whatever the rule accepts for which it stands: the rule finds its construct on what is left of the
input, and its first line passes the test.  So no line behind the first of a paragraph is one at
which a heading, a thematic break, fenced code or a block quote would be recognised, and none within
a list item is one at which a list would be.

## Main results

* `startsHeading_of_strictHeading`, `isThematicBreak_of_some`, `startsFence_of_some` — the tests
  accept the first lines of the constructs.
* `BlockConstruct.recognize_of_goesOn` — on a line that passes no test no such construct is found.
* `paragraphs_leave_blocks` — the lines of the paragraphs that the dialects read.
-/

namespace Docmark

/-! ## Indented lines -/

section Indented

variable {k : Nat} {m : Char} {body : Text}

/-- A line is its indentation by blanks and what follows it. -/
lemma exists_blanks {l : Text} (h : l.dropWhile (· = ' ') = m :: body) :
    ∃ k, l = List.replicate k ' ' ++ m :: body ∧ l.length - (m :: body).length = k ∧ m ≠ ' ' := by
  have hblanks : l.takeWhile (· = ' ') = List.replicate (l.takeWhile (· = ' ')).length ' ' :=
    List.eq_replicate_of_mem fun c hc => by simpa using List.mem_takeWhile_imp hc
  have hsplit : l = List.replicate (l.takeWhile (· = ' ')).length ' ' ++ m :: body := by
    rw [← hblanks, ← h, List.takeWhile_append_dropWhile]
  refine ⟨_, hsplit, ?_, ?_⟩
  · conv_lhs => rw [hsplit]
    simp
  · have hhead := List.head?_dropWhile_not (· = ' ') l
    rw [h] at hhead
    simpa using hhead

lemma dropWhile_blanks (hm : m ≠ ' ') :
    (List.replicate k ' ' ++ m :: body).dropWhile (· = ' ') = m :: body := by
  rw [List.dropWhile_append_of_pos (by simp), List.dropWhile_cons_of_neg (by simpa using hm)]

lemma trimStart_blanks (hm : isSpace m = false) :
    trimStart (List.replicate k ' ' ++ m :: body) = m :: body := by
  rw [trimStart, List.dropWhile_append_of_pos fun c hc => by rw [List.eq_of_mem_replicate hc]; rfl,
    List.dropWhile_cons_of_neg (by simpa using hm)]

lemma indentation_blanks (hm : isPad m = false) :
    indentation (List.replicate k ' ' ++ m :: body) = k := by
  have hfrom (w : Nat) : indentFrom w (List.replicate k ' ' ++ m :: body) = w + k := by
    induction k generalizing w with
    | zero =>
      obtain ⟨hblank, htab⟩ : m ≠ ' ' ∧ m ≠ '\t' := by simpa [isPad] using hm
      rw [List.replicate_zero, List.nil_append, indentFrom, if_neg hblank, if_neg htab]
      rfl
    | succ k ih =>
      rw [List.replicate_succ, List.cons_append, indentFrom, if_pos rfl, ih]
      omega
  rw [indentation, hfrom, Nat.zero_add]

end Indented

/-! ## The tests -/

/-- A strict heading: at most three blanks, one to six hashes, and white space behind them. -/
lemma exists_of_strictHeading {l : Text} {h : HeadingLine} (hl : strictHeading? l = some h) :
    ∃ k n pad rest, k ≤ 3 ∧ 1 ≤ n ∧ n ≤ 6 ∧ isPad pad = true ∧
      l = List.replicate k ' ' ++ (List.replicate n '#' ++ pad :: rest) := by
  simp only [strictHeading?] at hl
  generalize hbody : l.dropWhile (· = ' ') = body at hl
  generalize hrun : body.takeWhile (· = '#') = run at hl
  generalize hafter : body.drop run.length = after at hl
  generalize hpads : (after.takeWhile isPad).length = pads at hl
  generalize hskipped : (if pads = after.length then pads - 1 else pads) = skipped at hl
  split at hl
  next => cases hl
  next hcond =>
    obtain ⟨hindent, hpos, hsix, hnone⟩ : ¬ 3 < l.length - body.length ∧ ¬ run.length = 0 ∧
        ¬ 6 < run.length ∧ ¬ skipped = 0 := by simpa only [not_or] using hcond
    have hhashes : run = List.replicate run.length '#' := by
      refine List.eq_replicate_of_mem fun c hc => ?_
      rw [← hrun] at hc
      simpa using List.mem_takeWhile_imp hc
    have hsplit : body = run ++ after := by
      rw [← hafter, ← hrun]
      exact (List.prefix_iff_eq_append.1 (List.takeWhile_prefix _)).symm
    have hpad : ∃ pad rest, after = pad :: rest ∧ isPad pad = true := by
      have hsome : pads ≠ 0 := by
        rintro rfl
        exact hnone (by rw [← hskipped, Nat.zero_sub, ite_self])
      cases after with
      | nil => exact absurd hpads.symm hsome
      | cons pad rest =>
        refine ⟨pad, rest, rfl, ?_⟩
        by_contra hpad
        rw [List.takeWhile_cons_of_neg hpad] at hpads
        exact hsome hpads.symm
    obtain ⟨pad, rest, rfl, hpad⟩ := hpad
    obtain ⟨m, b, hmb⟩ := List.exists_cons_of_ne_nil (l := body) (by rw [hsplit]; simp)
    obtain ⟨k, hl, hk, -⟩ := exists_blanks (hbody.trans hmb)
    refine ⟨k, run.length, pad, rest, ?_, by omega, by omega, hpad, ?_⟩
    · rw [← hk, ← hmb]
      omega
    · rw [← hhashes, ← hsplit, hmb]
      exact hl

/-- The test for headings accepts the lines of strict headings, whatever follows. -/
lemma startsHeading_of_strictHeading {l : Text} {h : HeadingLine} (hl : strictHeading? l = some h)
    (tail : Text) : startsHeading (l ++ tail) = true := by
  obtain ⟨k, n, pad, rest, hk, hn, hsix, hpad, rfl⟩ := exists_of_strictHeading hl
  obtain ⟨n, rfl⟩ : ∃ j, n = j + 1 := ⟨n - 1, by omega⟩
  have hpad' : pad ≠ '#' := by
    rintro rfl
    cases hpad
  have hbody : (List.replicate k ' ' ++ (List.replicate (n + 1) '#' ++ pad :: rest) ++
      tail).dropWhile (· = ' ') = List.replicate (n + 1) '#' ++ pad :: (rest ++ tail) := by
    rw [List.append_assoc, List.replicate_succ, List.cons_append, List.cons_append,
      dropWhile_blanks (by decide)]
    simp
  have hhashes : (List.replicate (n + 1) '#' ++ pad :: (rest ++ tail)).takeWhile (· = '#') =
      List.replicate (n + 1) '#' := by
    rw [List.takeWhile_append_of_pos (by simp), List.takeWhile_cons_of_neg (by simpa using hpad'),
      List.append_nil]
  have hdrop : (List.replicate (n + 1) '#' ++ pad :: (rest ++ tail)).drop (n + 1) =
      pad :: (rest ++ tail) := List.drop_left' List.length_replicate
  have hspace : (pad == ' ' || pad == '\t' || pad == '\n') = true := by
    rcases (by simpa [isPad] using hpad : pad = ' ' ∨ pad = '\t') with rfl | rfl <;> rfl
  simp only [startsHeading, hbody, hhashes, List.length_replicate, hdrop, hspace, Bool.and_true,
    Bool.and_eq_true, decide_eq_true_eq, List.length_append, List.length_cons]
  omega

/-- The test for thematic breaks accepts their lines, with white space behind them. -/
lemma isThematicBreak_of_some {cs tail : Text} {x : Found Block.Leaf}
    (h : thematicBreak? cs = some x) (htail : ∀ c ∈ tail, isSpace c = true) :
    isThematicBreak (restOfLine cs ++ tail) = true := by
  simp only [thematicBreak?] at h
  split at h
  next => cases h
  next c rest hbody =>
    obtain ⟨k, hline, hk, -⟩ := exists_blanks hbody
    rw [hbody, hk] at h
    split at h
    next hcond =>
      obtain ⟨hindent, hmark, hall, hcount⟩ := hcond
      have hc : isSpace c = false ∧ isPad c = false := by
        rcases hmark with rfl | rfl | rfl <;> decide
      have hmarks : (c :: rest).filter (fun d => !isSpace d) =
          List.replicate ((c :: rest).count c) c := by
        rw [← List.filter_beq]
        refine List.filter_congr fun d hd => ?_
        have hd' : d = c ∨ isPad d = true := by simpa using List.all_eq_true.1 hall d hd
        rcases hd' with rfl | hpad
        · simp [hc.1]
        · have hspace : isSpace d = true := by
            rcases (by simpa [isPad] using hpad : d = ' ' ∨ d = '\t') with rfl | rfl <;> decide
          have hne : d ≠ c := by
            rintro rfl
            rw [hc.1] at hspace
            cases hspace
          simp [hspace, hne]
      have hblanks : (List.replicate k ' ').filter (fun d => !isSpace d) = [] :=
        List.filter_eq_nil_iff.2 fun d hd => by rw [List.eq_of_mem_replicate hd]; decide
      have hnone : tail.filter (fun d => !isSpace d) = [] :=
        List.filter_eq_nil_iff.2 fun d hd => by simp [htail d hd]
      obtain ⟨n, hn⟩ : ∃ n, (c :: rest).count c = n + 3 := ⟨(c :: rest).count c - 3, by omega⟩
      have hfilter : (restOfLine cs ++ tail).filter (fun d => !isSpace d) =
          c :: List.replicate (n + 2) c := by
        rw [hline, List.filter_append, List.filter_append, hblanks, hmarks, hnone, hn,
          List.nil_append, List.append_nil, List.replicate_succ]
      have hwidth : indentation (restOfLine cs ++ tail) = k := by
        rw [hline, List.append_assoc, List.cons_append]
        exact indentation_blanks hc.2
      simp only [isThematicBreak, hwidth, hfilter, Bool.and_eq_true, decide_eq_true_eq,
        List.length_replicate]
      exact ⟨hindent, ⟨by simpa [or_assoc] using hmark, by omega⟩, by simp⟩
    next => cases h

/-- The test for fences accepts the lines that open fenced code, whatever follows. -/
lemma startsFence_of_some {cs : Text} {f : Fence} (h : fence? cs = some f) (tail : Text) :
    startsFence (restOfLine cs ++ tail) = true := by
  simp only [fence?] at h
  split at h
  next => cases h
  next m rest hbody =>
    obtain ⟨k, hline, hk, -⟩ := exists_blanks hbody
    rw [hbody, hk] at h
    split at h
    next hcond =>
      obtain ⟨hindent, hmark, hsize, -⟩ := hcond
      have hm : isSpace m = false ∧ isPad m = false := by rcases hmark with rfl | rfl <;> decide
      have hwhole : restOfLine cs ++ tail = List.replicate k ' ' ++ m :: (rest ++ tail) := by
        rw [hline, List.append_assoc, List.cons_append]
      have hthree : List.replicate 3 m <+: m :: (rest ++ tail) := by
        have hrun : (m :: rest).takeWhile (· = m) =
            List.replicate ((m :: rest).takeWhile (· = m)).length m :=
          List.eq_replicate_of_mem fun d hd => by simpa using List.mem_takeWhile_imp hd
        have hmarks : List.replicate 3 m <+: (m :: rest).takeWhile (· = m) := by
          rw [hrun]
          exact (List.prefix_replicate_iff).2 ⟨by simpa using hsize, by simp⟩
        exact (hmarks.trans (List.takeWhile_prefix _)).trans (List.prefix_append _ tail)
      simp only [startsFence, hwhole, trimStart_blanks hm.1, indentation_blanks hm.2,
        Bool.and_eq_true, decide_eq_true_eq, Bool.or_eq_true, List.isPrefixOf_iff_prefix]
      refine ⟨hindent, ?_⟩
      rcases hmark with rfl | rfl
      · exact .inl hthree
      · exact .inr hthree
    next => cases h

/-! ## Lines that go on -/

/-- The constructs in front of which a paragraph ends; lists are among them where `lists` is set. -/
def BlockConstruct.interrupts (lists : Bool) : BlockConstruct → Bool
  | heading _ .strict _ | thematicBreak | fences | blockquote => true
  | list => lists
  | _ => false

/-- **Where a paragraph goes on**, none of the constructs is found in front of which it ends. -/
theorem BlockConstruct.recognize_of_goesOn {lists : Bool} {cur : Cursor} {line : Text}
    {ls : List Text} (hlines : lines cur.rest = line :: ls)
    (hline : interruptsParagraph lists line = false) {c : BlockConstruct}
    (hc : c.interrupts lists = true) (nest : Option BlockReader) (scope : Scope) :
    c.recognize nest scope cur = .ok none := by
  obtain ⟨tail, htail, hfirst⟩ : ∃ tail, (∀ c ∈ tail, isSpace c = true) ∧
      line = restOfLine cur.rest ++ tail := by
    rcases head_of_lines hlines with h | h
    · exact ⟨[], nofun, by rw [h, List.append_nil]⟩
    · exact ⟨['\n'], List.forall_mem_singleton.2 rfl, h⟩
  simp only [interruptsParagraph, Bool.or_eq_false_iff, Bool.and_eq_false_iff] at hline
  obtain ⟨⟨⟨⟨hheading, hbreak⟩, hfence⟩, hquote⟩, hlist⟩ := hline
  -- each test would accept the line if its construct were found
  cases c with
  | heading name style level =>
    cases style with
    | relaxed => cases hc
    | strict =>
      cases h : strictHeading? (restOfLine cur.rest) with
      | none => simp only [recognize, heading?, headingLine?, h, Option.map_none]
      | some x =>
        rw [hfirst, startsHeading_of_strictHeading h tail] at hheading
        cases hheading
  | thematicBreak =>
    cases h : thematicBreak? cur.rest with
    | none => simp only [recognize, h, Option.map_none]
    | some x =>
      rw [hfirst, isThematicBreak_of_some h htail] at hbreak
      cases hbreak
  | fences =>
    cases h : fence? cur.rest with
    | none => simp only [recognize, fencedCode?, h, Option.map_none]
    | some f =>
      rw [hfirst, startsFence_of_some h tail] at hfence
      cases hfence
  | blockquote =>
    have hnone : quoteLines (lines cur.rest) = [] := by
      rw [hlines, quoteLines, if_neg (by rw [hquote]; decide)]
    cases nest with
    | none => rfl
    | some read => simp only [recognize, blockquote?, hnone]
  | list =>
    have hmarker : listMarker? line = none := by
      have hlists : lists = true := hc
      rcases hlist with h | h
      · rw [hlists] at h
        cases h
      · simpa using h
    cases nest with
    | none => rfl
    | some read => simp only [recognize, list?, hlines, listScan?, hmarker]
  | _ => cases hc

/-- The lines behind the first of a paragraph are not blank and pass no test. -/
lemma mem_paragraphLines_tail {lists : Bool} {ls before after : List Text} {line : Text}
    (h : paragraphLines lists ls = before ++ line :: after) (hne : before ≠ []) :
    isBlank line = false ∧ interruptsParagraph lists line = false := by
  cases ls with
  | nil => simp [paragraphLines] at h
  | cons first ls =>
    obtain ⟨b, before, rfl⟩ := List.exists_cons_of_ne_nil hne
    rw [paragraphLines] at h
    split at h
    next => simp at h
    next =>
      have hmem : line ∈ ls.takeWhile fun l => !(isBlank l || interruptsParagraph lists l) := by
        rw [(List.cons.inj h).2]
        simp
      simpa using List.mem_takeWhile_imp hmem

lemma AreLines.of_append {before ls : List Text} (h : AreLines (before ++ ls)) : AreLines ls := by
  induction before with
  | nil => exact h
  | cons b before ih => exact ih h.tail

/-- At a line of a paragraph the input goes on with that line. -/
lemma lines_drop_of_paragraph {lists : Bool} {cs : Text} {before after : List Text} {line : Text}
    (h : paragraphLines lists (lines cs) = before ++ line :: after) :
    ∃ ls, lines (cs.drop before.flatten.length) = line :: ls := by
  obtain ⟨behind, hbehind⟩ := paragraphLines_initial lists (lines cs)
  rw [h, List.append_assoc, List.cons_append] at hbehind
  have hwhole : cs = before.flatten ++ (line :: (after ++ behind)).flatten := by
    rw [← List.flatten_append, hbehind, lines_flatten]
  have hlines : AreLines (line :: (after ++ behind)) :=
    AreLines.of_append (hbehind ▸ lines_areLines cs)
  refine ⟨after ++ behind, ?_⟩
  rw [hwhole, List.drop_left, hlines.lines_flatten]

/-! ## The paragraphs of a dialect -/

/-- The names of the rules in front of whose blocks a paragraph ends. -/
def interruptingNames (lists : Bool) : List String :=
  ["heading", "hr", "fences", "blockquote"] ++ if lists then [listName] else []

/-- Whether the rule with a name ends its blocks in front of list items. -/
def heedsLists (rule : String) (scope : Scope) : Bool :=
  rule == "text" && scope.has Scope.isInList

/-- At no line but the first of some lines at the start of the input would one of the rules find
anything in front of whose blocks a paragraph ends, and none of them is blank. -/
def RuleSet.LeavesBlocks (rules : RuleSet) (lists : Bool) (paragraph : List Text) (cur : Cursor) :
    Prop :=
  ∀ before line after, paragraph = before ++ line :: after → before ≠ [] →
    isBlank line = false ∧ line <+: (cur.drop before.flatten.length).rest ∧
      ∀ r ∈ rules.block, r.name ∈ interruptingNames lists → ∀ nest scope,
        Declines (BlockRule.attempt nest scope (cur.drop before.flatten.length)) r

/-- A block of `n` characters that the rule with the given name made of the lines of a paragraph. -/
structure RuleSet.JoinsLines (rules : RuleSet) (rule : String) (scope : Scope) (cur : Cursor)
    (b : Block) (n : Nat) : Prop where
  made : ∃ form, b = .leaf ⟨rule, cur.spanOf n⟩ (.pending ⟨form,
    joinParagraph (paragraphLines (heedsLists rule scope) (lines cur.rest)), cur.point, scope⟩)
  length : n = (paragraphLines (heedsLists rule scope) (lines cur.rest)).flatten.length +
    leadingNewlines (cur.rest.drop
      (paragraphLines (heedsLists rule scope) (lines cur.rest)).flatten.length)
  leaves : rules.LeavesBlocks (heedsLists rule scope)
    (paragraphLines (heedsLists rule scope) (lines cur.rest)) cur

/-- Headings need white space behind their hashes, and have no other name. -/
def RuleSet.IsStrict (rules : RuleSet) : Prop :=
  ∀ name style level, .standard (.heading name style level) ∈ rules.block →
    name = "heading" ∧ style = .strict

lemma Flavor.rules_isStrict {f : Flavor} (hf : f ≠ .markdown) : f.rules.IsStrict := by
  intro name style level h
  cases f with
  | markdown => exact absurd rfl hf
  | gfm => simp_all [rules, gfmRules]
  | dfm => simp_all [rules, dfmRules]

section Standard

variable {rules : RuleSet} (hrules : rules.IsStandard) (hstrict : rules.IsStrict)

include hrules hstrict

/-- The rules with these names are those for the constructs. -/
lemma RuleSet.exists_interrupts {lists : Bool} {r : BlockRule} (hr : r ∈ rules.block)
    (hname : r.name ∈ interruptingNames lists) :
    ∃ c : BlockConstruct, r = .standard c ∧ c.interrupts lists = true := by
  obtain ⟨c, rfl⟩ := hrules.block r hr
  refine ⟨c, rfl, ?_⟩
  cases c with
  | heading name style level =>
    obtain ⟨-, rfl⟩ := hstrict name style level hr
    rfl
  | thematicBreak => rfl
  | fences => rfl
  | blockquote => rfl
  | list =>
    cases lists with
    | true => rfl
    | false => exact absurd hname (by decide)
  | _ => cases lists <;> exact absurd hname (by decide)

lemma RuleSet.leavesBlocks_paragraphLines (lists : Bool) (cur : Cursor) :
    rules.LeavesBlocks lists (paragraphLines lists (lines cur.rest)) cur := by
  intro before line after hsplit hne
  obtain ⟨hblank, hgoes⟩ := mem_paragraphLines_tail hsplit hne
  obtain ⟨ls, hls⟩ := lines_drop_of_paragraph hsplit
  refine ⟨hblank, ⟨ls.flatten, ?_⟩, fun r hr hname nest scope => ?_⟩
  · rw [← List.flatten_cons, ← hls, lines_flatten]
    rfl
  · obtain ⟨c, rfl, hc⟩ := RuleSet.exists_interrupts hrules hstrict hr hname
    exact declines_of_block (BlockConstruct.recognize_of_goesOn hls hgoes hc nest scope)

/-- What the two rules for paragraphs make. -/
lemma BlockConstruct.recognize_joinsLines {nest : Option BlockReader} {scope : Scope} {cur : Cursor}
    {c : BlockConstruct} {found : Found Block.Body} (hc : .standard c ∈ rules.block)
    (hname : c.name = "paragraph" ∨ c.name = "text")
    (h : c.recognize nest scope cur = .ok (some found)) :
    rules.JoinsLines c.name scope cur (.ofBody ⟨c.name, cur.spanOf found.length⟩ found.value)
      found.length := by
  have hleaves := RuleSet.leavesBlocks_paragraphLines hrules hstrict
  cases c with
  | heading name style level =>
    obtain ⟨rfl, -⟩ := hstrict name style level hc
    simp [name] at hname
  | paragraph =>
    obtain ⟨x, hx, rfl⟩ := Option.map_eq_some_iff.1 (Except.ok.inj h)
    obtain ⟨-, -, rfl⟩ := paragraph?_eq_some hx
    exact ⟨⟨_, rfl⟩, rfl, hleaves false cur⟩
  | text =>
    cases h
    exact ⟨⟨_, rfl⟩, rfl, hleaves _ cur⟩
  | _ => exact absurd hname (by decide)

end Standard

/-- **Paragraphs leave blocks alone.**  In the dialects with strict headings, whatever the rules for
paragraphs make is joined from lines of which none but the first is blank or one at which a heading,
a thematic break, fenced code or a block quote would be recognised; nor, within a list item, a list.
So it is wherever a rule is tried and with all that the reading of a text yields. -/
theorem paragraphs_leave_blocks {f : Flavor} (hf : f ≠ .markdown) (nest : Option BlockReader)
    (scope : Scope) :
    (∀ r ∈ f.rules.block, r.name = "paragraph" ∨ r.name = "text" → ∀ cur b n,
      r.attempt nest scope cur = .ok ⟨some b, n⟩ → f.rules.JoinsLines r.name scope cur b n) ∧
    ∀ text origin, ∀ b ∈ (runBlocks f.rules nest scope text origin).tokens,
      b.head.rule = "paragraph" ∨ b.head.rule = "text" → ∃ cur n,
        Cursor.IsIn cur text origin ∧ f.rules.JoinsLines b.head.rule scope cur b n := by
  have hrules := f.rules_isStandard
  have hstrict := Flavor.rules_isStrict hf
  constructor
  · intro r hr hname cur b n h
    obtain ⟨c, rfl⟩ := hrules.block r hr
    obtain ⟨found, hfound, rfl, rfl⟩ := BlockRule.exists_of_attempt h
    exact BlockConstruct.recognize_joinsLines hrules hstrict hr hname hfound
  · intro text origin
    refine readAll_places ?_ _ (Cursor.isIn_ofText text origin)
    intro cur m hcur hm hname
    obtain ⟨c, found, hc, hfound, rfl⟩ := nextBlock_some hrules hm
    have hrule :
        (Block.ofBody ⟨c.name, cur.spanOf found.length⟩ found.value).head.rule = c.name := by
      cases found.value <;> rfl
    rw [hrule] at hname ⊢
    exact ⟨cur, found.length, hcur,
      BlockConstruct.recognize_joinsLines hrules hstrict hc hname hfound⟩

/-- Two lines in front of a thematic break, the second of which is no list item there. -/
theorem paragraphs_leave_blocks_gfm :
    Flavor.gfm ≠ .markdown ∧
    BlockRule.attempt none Scope.document (Cursor.ofText "a\n- b\n***\n".toList Point.start)
        (.standard .paragraph) =
      .ok ⟨some (.leaf ⟨"paragraph", ⟨Point.start, ⟨3, 1, 6⟩⟩⟩
        (.pending ⟨.paragraph, "a\n- b".toList, Point.start, Scope.document⟩)), 6⟩ ∧
    Flavor.gfm.rules.LeavesBlocks false ["a\n".toList, "- b\n".toList]
      (Cursor.ofText "a\n- b\n***\n".toList Point.start) := by
  obtain ⟨hstep, -⟩ := paragraphs_leave_blocks (f := .gfm) (by decide) none Scope.document
  exact ⟨by decide, rfl, (hstep (.standard .paragraph) (by simp [Flavor.rules, gfmRules]) (.inl rfl)
    (Cursor.ofText "a\n- b\n***\n".toList Point.start) _ 6 rfl).leaves⟩

end Docmark
