import Mathlib
import Docmark.Proofs.Container.Alone
import Docmark.Proofs.Text.Lines

/-!
# Texts as list items

A bullet in front of the first line of a text and two blanks in front of the others make a list of
one item of it.  The item is collected line by line: its content is the text, except that a run of
blank lines goes into it as one blank line (`squeezed`), since the scan counts the blank lines of a
run but adds one line feed for all of them.  Where every run is one line the content is the text
itself, and the item is as transparent as a block quote; otherwise code and raw HTML in the item
lose blank lines that they keep everywhere else.

## Main results

* `items_are_transparent` — the list of one item that a bulleted text is, and what the item holds.
* `item_loses_blank_lines` — fenced code in an item is not what it is outside.
-/

namespace Docmark

/-- What is written in front of the first line of an item. -/
def bullet : Text := ['-', ' ']

/-- A further line of an item: behind two blanks, unless it is blank. -/
def itemLine (line : Text) : Text := if isBlank line then line else ' ' :: ' ' :: line

/-- The text as an item of a bulleted list. -/
def bulleted (text : Text) : Text :=
  match lines text with
  | [] => []
  | first :: rest => bullet ++ first ++ rest.flatMap itemLine

/-- Whether two lines are not both blank. -/
abbrev NotBothBlank (l l' : Text) : Prop := ¬ (isBlank l = true ∧ isBlank l' = true)

/-- The text with every run of blank lines reduced to its first line. -/
def squeezed (text : Text) : Text := ((lines text).destutter NotBothBlank).flatten

/-- A text that a bullet makes an item of: it starts with a character, its first line is neither the
box of a task nor, behind the bullet, a thematic break, and its blank lines are bare line feeds with
text behind them. -/
structure IsItemText (text : Text) : Prop where
  starts : ∃ c, text.head? = some c ∧ isSpace c = false
  task : ∀ l ∈ (lines text).head?, (splitTask l).1 = none
  rule : ∀ l ∈ (lines text).head?, isThematicBreak (bullet ++ l) = false
  blank : ∀ l ∈ lines text, isBlank l = true → l = ['\n']
  last : ∀ l ∈ (lines text).getLast?, isBlank l = false

lemma squeezed_eq_self {text : Text} (h : (lines text).IsChain NotBothBlank) :
    squeezed text = text := by
  rw [squeezed, List.destutter_of_isChain _ _ h, lines_flatten]

/-! ## Lines of an item -/

lemma isBlank_itemLine (line : Text) : isBlank (itemLine line) = isBlank line := by
  rw [itemLine]
  split
  next => rfl
  next => rfl

lemma stripIndent_two (line : Text) : stripIndent 2 (' ' :: ' ' :: line) = line := by
  cases line <;> rfl

/-- **What an item collects.**  `prev` is the line in front of the lines that are left.  Unless it
is blank the item holds it already; a blank line goes into the item with the next line that is
not. -/
lemma scanItems_itemLines {first : ListMarker} (item : ItemScan) {before prev : Text} {blank : Bool}
    {ls : List Text} {offset : Nat} (hindent : item.marker.contentIndent = 2)
    (hprev : isBlank prev = blank) (hcontent : item.content = before ++ if blank then [] else prev)
    (hstop : blank = false → item.stop = offset)
    (hblank : ∀ l ∈ prev :: ls, isBlank l = true → l = ['\n'])
    (hlast : ∀ l ∈ (prev :: ls).getLast?, isBlank l = false) :
    scanItems first item offset blank (ls.map itemLine) =
      ⟨[{ item with
          stop := offset + (ls.map itemLine).flatten.length
          content := before ++ (ls.destutter' NotBothBlank prev).flatten
          spaced := item.spaced || (prev :: ls).any isBlank }], false⟩ := by
  induction ls generalizing item before prev blank offset with
  | nil =>
    obtain rfl : blank = false := hprev ▸ hlast prev (by simp)
    obtain rfl := hstop rfl
    have hcontent : item.content = before ++ prev := hcontent
    simp [scanItems, ← hcontent, hprev]
  | cons l ls ih =>
    have hblank' : ∀ l' ∈ l :: ls, isBlank l' = true → l' = ['\n'] := fun l' hl' =>
      hblank l' (List.mem_cons_of_mem _ hl')
    have hlast' : ∀ l' ∈ (l :: ls).getLast?, isBlank l' = false := by simpa using hlast
    rw [List.map_cons, scanItems, isBlank_itemLine]
    cases hl : isBlank l with
    | true =>
      have hline : itemLine l = l := by rw [itemLine, if_pos hl]
      have hopen (stop : Nat) : true = false → item.stop = stop := fun h => Bool.noConfusion h
      rw [if_pos rfl, hline]
      cases blank with
      | true =>
        -- one more blank line of a run adds nothing
        have hsame : prev = l := by
          rw [hblank prev List.mem_cons_self hprev, hblank' l List.mem_cons_self hl]
        rw [ih item hindent hl hcontent (hopen _) hblank' hlast',
          List.destutter'_cons_neg _ (by simp [hl, hprev])]
        simp [hsame, hl, Nat.add_assoc]
      | false =>
        have hcontent : item.content = before ++ prev ++ [] := by simpa using hcontent
        rw [ih item hindent hl hcontent (hopen _) hblank' hlast',
          List.destutter'_cons_pos _ (by simp [hprev])]
        simp [hl, Nat.add_assoc]
    | false =>
      have hline : itemLine l = ' ' :: ' ' :: l := by rw [itemLine, if_neg (by simp [hl])]
      have hdeep : 2 ≤ indentation (itemLine l) := hline ▸ le_indentFrom 2 l
      have hcontent' (stop : Nat) :
          (item.addLine blank l stop).content = before ++ prev ++ if false then [] else l := by
        cases blank with
        | true =>
          have hfeed : prev = ['\n'] := hblank prev List.mem_cons_self hprev
          simp [ItemScan.addLine, hcontent, hfeed]
        | false => simp [ItemScan.addLine, hcontent]
      have hstop' (stop : Nat) : false = false → (item.addLine blank l stop).stop = stop :=
        fun _ => rfl
      rw [if_neg (by simp), hindent, if_pos hdeep, hline, stripIndent_two,
        ih (item.addLine blank l _) hindent hl (hcontent' _) (hstop' _) hblank' hlast',
        List.destutter'_cons_pos _ (by simp [hl])]
      simp [ItemScan.addLine, hl, hprev, Nat.add_assoc, Bool.or_assoc]
      omega

/-! ## The first line -/

lemma listMarker?_bullet {c : Char} (hc : isSpace c = false) (rest : Text) :
    listMarker? (bullet ++ c :: rest) = some ⟨'-', none, 2, 2⟩ := by
  have hblank : c ≠ ' ' := ne_of_not_isSpace hc (by decide)
  have hfeed : c ≠ '\n' := ne_of_not_isSpace hc (by decide)
  have hindent : indentation ('-' :: ' ' :: c :: rest) = 0 :=
    indentation_of_not_isSpace (by decide)
  simp [bullet, listMarker?, hindent, markerSign?, isPad, hblank, hfeed]

/-- What starts a text and holds no line feed starts its first line. -/
lemma prefix_of_line {p l rest : Text} (hp : '\n' ∉ p) (h : p <+: l ++ ['\n'] ++ rest) :
    p <+: l := by
  rcases List.prefix_or_prefix_of_prefix h (List.prefix_append _ rest) with h | h
  · rcases List.prefix_concat_iff.1 h with rfl | h
    · simp at hp
    · exact h
  · exact absurd (h.subset (by simp)) hp

lemma splitTask_eq_none {cs : Text} (h : ∀ c ∈ [' ', 'x', 'X'], ¬ ['[', c, ']', ' '] <+: cs) :
    splitTask cs = (none, cs) := by
  unfold splitTask
  split
  next rest => exact absurd (List.prefix_append _ rest) (h ' ' (by simp))
  next rest => exact absurd (List.prefix_append _ rest) (h 'x' (by simp))
  next rest => exact absurd (List.prefix_append _ rest) (h 'X' (by simp))
  next => rfl

lemma splitTask_of_fst {cs : Text} (h : (splitTask cs).1 = none) : splitTask cs = (none, cs) := by
  unfold splitTask at h ⊢
  split at h
  next => cases h
  next => cases h
  next => cases h
  next => rfl

/-- A box is told by the first line alone. -/
lemma splitTask_append {l : Text} (h : (splitTask (l ++ ['\n'])).1 = none) (rest : Text) :
    splitTask (l ++ ['\n'] ++ rest) = (none, l ++ ['\n'] ++ rest) := by
  refine splitTask_eq_none fun c hc hbox => ?_
  have hfeed : ∀ c ∈ [' ', 'x', 'X'], '\n' ∉ ['[', c, ']', ' '] := by simp
  obtain ⟨l', rfl⟩ := prefix_of_line (hfeed c hc) hbox
  simp only [List.mem_cons, List.not_mem_nil, or_false] at hc
  rcases hc with rfl | rfl | rfl <;> cases h

/-- Three marks with nothing but white space between and behind them are a break. -/
lemma isThematicBreak_of_marks {cs : Text} (hmarks : ∀ c ∈ cs, isSpace c = false → c = '-')
    (hcount : 2 ≤ cs.count '-') : isThematicBreak ('-' :: cs) = true := by
  have hindent : indentation ('-' :: cs) = 0 := indentation_of_not_isSpace (by decide)
  have hkept : ('-' :: cs).filter (fun c => !isSpace c) = '-' :: cs.filter fun c => !isSpace c :=
    List.filter_cons_of_pos (by decide)
  have hall : (cs.filter fun c => !isSpace c).all (· == '-') = true := by
    refine List.all_eq_true.2 fun c hc => beq_iff_eq.2 ?_
    obtain ⟨hc, hspace⟩ := List.mem_filter.1 hc
    exact hmarks c hc (by simpa using hspace)
  have hlength : 2 ≤ (cs.filter fun c => !isSpace c).length := by
    rw [← List.countP_eq_length_filter]
    refine hcount.trans (List.countP_mono_left fun c _ hc => ?_)
    rw [eq_of_beq hc]
    decide
  rw [isThematicBreak, hindent, hkept]
  dsimp only
  rw [hall, decide_eq_true hlength]
  rfl

/-- A line of marks that the rule for breaks takes is one that lists leave to it. -/
lemma thematicBreak?_of_head {rest l : Text} {ls : List Text} (hl : lines ('-' :: rest) = l :: ls)
    (h : isThematicBreak l = false) : thematicBreak? ('-' :: rest) = none := by
  have hline : restOfLine ('-' :: rest) = '-' :: restOfLine rest := restOfLine_of_ne (by decide) rest
  obtain ⟨feed, hfeed, rfl⟩ : ∃ feed, (∀ c ∈ feed, isSpace c = true) ∧
      l = '-' :: (restOfLine rest ++ feed) := by
    rcases head_of_lines hl with rfl | rfl
    · exact ⟨[], by simp, by rw [hline, List.append_nil]⟩
    · exact ⟨['\n'], fun c hc => List.mem_singleton.1 hc ▸ by decide,
        by rw [hline, List.cons_append]⟩
  have hbody : ('-' :: restOfLine rest).dropWhile (· = ' ') = '-' :: restOfLine rest := by simp
  simp only [thematicBreak?, hline, hbody]
  refine if_neg fun hbreak => ?_
  obtain ⟨-, -, hall, hcount⟩ := hbreak
  have hmarks : ∀ c ∈ restOfLine rest ++ feed, isSpace c = false → c = '-' := by
    intro c hc hspace
    rcases List.mem_append.1 hc with hc | hc
    · simpa [isPad_of_not_isSpace hspace] using
        List.all_eq_true.1 hall c (List.mem_cons_of_mem _ hc)
    · rw [hfeed c hc] at hspace
      cases hspace
  have htwo : 2 ≤ (restOfLine rest ++ feed).count '-' := by
    rw [List.count_cons_self] at hcount
    rw [List.count_append]
    omega
  rw [isThematicBreak_of_marks hmarks htwo] at h
  cases h

/-! ## The list -/

/-- The marker of a bulleted text. -/
def bulletMarker : ListMarker := ⟨'-', none, 2, 2⟩

section Item

variable {text first : Text} {rest : List Text}

lemma lines_bulleted (h : lines text = first :: rest) :
    lines (bulleted text) = (bullet ++ first) :: rest.map itemLine := by
  have hflatten : bulleted text = ((bullet ++ first) :: rest.map itemLine).flatten := by
    rw [bulleted, h, List.flatten_cons, ← List.flatMap_def]
  rw [hflatten]
  refine AreLines.lines_flatten (AreLines.cons_map (fun l => ?_) (by decide) (h ▸ lines_areLines text))
  rw [itemLine]
  split
  next => exact ⟨[], by simp, rfl⟩
  next => exact ⟨[' ', ' '], by decide, rfl⟩

lemma squeezed_eq (h : lines text = first :: rest) :
    squeezed text = (rest.destutter' NotBothBlank first).flatten := by
  rw [squeezed, h, List.destutter_cons']

lemma IsItemText.exists_lines (h : IsItemText text) :
    ∃ c line rest, isSpace c = false ∧ lines text = (c :: line) :: rest := by
  obtain ⟨c, hc, hspace⟩ := h.starts
  obtain ⟨cs, rfl⟩ := List.head?_eq_some_iff.1 hc
  obtain ⟨line, rest, hlines⟩ := lines_cons_of_ne (ne_of_not_isSpace hspace (by decide)) cs
  exact ⟨c, line, rest, hspace, hlines⟩

/-- The box of a task is looked for in the first line, which squeezing leaves as it is. -/
lemma IsItemText.splitTask_squeezed (h : IsItemText text) :
    splitTask (squeezed text) = (none, squeezed text) := by
  obtain ⟨c, line, rest, hspace, hlines⟩ := h.exists_lines
  have htask : (splitTask (c :: line)).1 = none := h.task _ (by rw [hlines]; rfl)
  have hareLines : AreLines ((c :: line) :: rest) := hlines ▸ lines_areLines text
  have hblank : isBlank (c :: line) = false := by simp [isBlank, hspace]
  rw [squeezed_eq hlines]
  generalize c :: line = first at htask hareLines hblank
  cases hareLines with
  | last => simpa using splitTask_of_fst htask
  | @cons l _ _ hrest =>
    cases rest with
    | nil => simpa using splitTask_of_fst htask
    | cons l' rest =>
      rw [List.destutter'_cons_pos _ (by simp [hblank]), List.flatten_cons]
      exact splitTask_append htask _

/-- The one item of a bulleted text: it takes the whole of it and holds the squeezed text. -/
lemma IsItemText.listScan?_bulleted (h : IsItemText text) :
    listScan? (lines (bulleted text)) = some (bulletMarker,
      ⟨[⟨bulletMarker, 0, (bulleted text).length, squeezed text, (lines text).any isBlank⟩],
        false⟩) := by
  obtain ⟨c, line, rest, hspace, hlines⟩ := h.exists_lines
  have hbreak : isThematicBreak (bullet ++ c :: line) = false := h.rule _ (by rw [hlines]; rfl)
  have hmarker : listMarker? (bullet ++ c :: line) = some bulletMarker :=
    listMarker?_bullet hspace line
  have hfirst : isBlank (c :: line) = false := by simp [isBlank, hspace]
  have hblank := h.blank
  have hlast := h.last
  rw [hlines] at hblank hlast
  have hlength : (bulleted text).length =
      (bullet ++ c :: line).length + (rest.map itemLine).flatten.length := by
    rw [← lines_flatten (bulleted text), lines_bulleted hlines, List.flatten_cons,
      List.length_append]
  have hcontent : (ItemScan.ofLine bulletMarker 0 (bullet ++ c :: line)).content =
      [] ++ if false then [] else c :: line := rfl
  have hstop : false = false → (ItemScan.ofLine bulletMarker 0 (bullet ++ c :: line)).stop =
      (bullet ++ c :: line).length := fun _ => Nat.zero_add _
  rw [lines_bulleted hlines, listScan?, hmarker]
  dsimp only
  rw [hbreak, if_neg (by simp), scanItems_itemLines _ rfl hfirst hcontent hstop hblank hlast]
  simp [ItemScan.ofLine, hlength, squeezed_eq hlines, hlines]

/-- A bulleted text is a list up to its end, with what the reader makes of the squeezed text as its
one item. -/
lemma IsItemText.list?_bulleted (h : IsItemText text) {read : BlockReader} {scope : Scope}
    {origin : Point} {bs : List Block}
    (hread : read (scope.nested Scope.isInList) (squeezed text) origin = .ok bs) :
    list? read scope (Cursor.ofText (bulleted text) origin) =
      .ok (some ⟨(bulleted text).length,
        .node (.list false none ((lines text).any isBlank))
          [.node ⟨listName, ⟨origin, origin.advance (bulleted text)⟩⟩
            (.listItem none ((lines text).any isBlank)) bs]⟩) := by
  have hrest : (Cursor.ofText (bulleted text) origin).rest = bulleted text := rfl
  have hstart : (Cursor.ofText (bulleted text) origin).pointAt 0 = origin := rfl
  have hstop : (Cursor.ofText (bulleted text) origin).pointAt (bulleted text).length =
      origin.advance (bulleted text) := by
    rw [Cursor.pointAt, hrest, List.take_length]
    rfl
  rw [list?, hrest, h.listScan?_bulleted]
  simp [readItem, h.splitTask_squeezed, hstart, hstop, hread, ListScan.loose, bulletMarker,
    ListMarker.ordered]

lemma IsItemText.exists_bulleted_cons (h : IsItemText text) :
    ∃ c rest, isSpace c = false ∧ bulleted text = '-' :: ' ' :: c :: rest := by
  obtain ⟨c, line, rest, hspace, hlines⟩ := h.exists_lines
  exact ⟨c, _, hspace, by rw [bulleted, hlines]; rfl⟩

lemma IsItemText.interruptsParagraph_bulleted (h : IsItemText text) :
    interruptsParagraph true (restOfLine (bulleted text)) = true := by
  obtain ⟨c, rest, hspace, hrest⟩ := h.exists_bulleted_cons
  have hline : restOfLine (bulleted text) = bullet ++ c :: restOfLine rest := by
    rw [hrest, restOfLine_of_ne (by decide), restOfLine_of_ne (by decide),
      restOfLine_of_ne (ne_of_not_isSpace hspace (by decide))]
    rfl
  simp [interruptsParagraph, hline, listMarker?_bullet hspace]

lemma IsItemText.thematicBreak?_bulleted (h : IsItemText text) :
    thematicBreak? (bulleted text) = none := by
  obtain ⟨c, line, rest, -, hlines⟩ := h.exists_lines
  obtain ⟨c', rest', -, hrest⟩ := h.exists_bulleted_cons
  have hbulleted := lines_bulleted hlines
  have hbreak : isThematicBreak (bullet ++ c :: line) = false := h.rule _ (by rw [hlines]; rfl)
  rw [hrest] at hbulleted ⊢
  exact thematicBreak?_of_head hbulleted hbreak

/-- A bullet begins no quote. -/
lemma IsItemText.blockquote?_bulleted (h : IsItemText text) (read : BlockReader) (scope : Scope)
    (origin : Point) : blockquote? read scope (Cursor.ofText (bulleted text) origin) = .ok none := by
  obtain ⟨c, line, rest, -, hlines⟩ := h.exists_lines
  have hrest : (Cursor.ofText (bulleted text) origin).rest = bulleted text := rfl
  have hquote : startsQuote (bullet ++ c :: line) = false := by
    rw [startsQuote, bullet, trimStart]
    simp [isSpace]
  rw [blockquote?, hrest, lines_bulleted hlines, quoteLines, hquote]
  rfl

/-- **List items are transparent but for runs of blank lines.**  A text with a bullet in front of its
first line and two blanks in front of every further line that is not blank is read, in each dialect
and wherever one more level may be opened, as one list of one item over the whole of it.  What the
item holds are the blocks of the text with every run of blank lines reduced to one, read from the
same place in the scope of a list; without two blank lines in a row these are the blocks of the text
itself. -/
theorem items_are_transparent (f : Flavor) {scope : Scope} (hnest : scope.canNest = true)
    (h : IsItemText text) (origin : Point) :
    ((lines text).IsChain NotBothBlank → squeezed text = text) ∧
    ∃ bs, readBlocks f.rules (scope.nested Scope.isInList) (squeezed text) origin = .ok bs ∧
      readBlocks f.rules scope (bulleted text) origin =
        .ok [.node ⟨listName, ⟨origin, origin.advance (bulleted text)⟩⟩
          (.list false none ((lines text).any isBlank))
          [.node ⟨listName, ⟨origin, origin.advance (bulleted text)⟩⟩
            (.listItem none ((lines text).any isBlank)) bs]] := by
  obtain ⟨bs, hbs⟩ := exists_readBlocks f.rules_isStandard f.rules_hasText
    (scope.nested Scope.isInList) (squeezed text) origin
  refine ⟨squeezed_eq_self, bs, hbs, ?_⟩
  obtain ⟨before, after, hrules, hbefore⟩ := f.rules_containers
  have hsplit : f.rules.block = (before.map .standard ++ [.standard .blockquote]) ++
      .standard .list :: after.map .standard := by
    rw [hrules]
    simp
  obtain ⟨c, rest, hspace, hrest⟩ := h.exists_bulleted_cons
  have hne : bulleted text ≠ [] := by simp [hrest]
  have hdeclines := attempt_marked (by decide) (by decide) hrest h.interruptsParagraph_bulleted
    h.thematicBreak?_bulleted hbefore (some (readBlocks f.rules)) scope origin
  have hquote : BlockRule.attempt (some (readBlocks f.rules)) scope
      (Cursor.ofText (bulleted text) origin) (.standard .blockquote) = .ok ⟨none, 0⟩ := by
    simp only [BlockRule.attempt, BlockConstruct.recognize, h.blockquote?_bulleted]
  refine readBlocks_alone hsplit hne hnest ?_ (h.list?_bulleted hbs)
  rw [List.forall_mem_append]
  exact ⟨hdeclines, fun r hr => ⟨0, List.mem_singleton.1 hr ▸ hquote⟩⟩

/-- A blank line between a line and a list, in the last level that may be opened. -/
theorem items_are_transparent_list :
    (⟨.block, 99, []⟩ : Scope).canNest = true ∧ IsItemText "a\n\n- b".toList ∧
    squeezed "a\n\n- b".toList = "a\n\n- b".toList ∧
    ∃ bs, readBlocks Flavor.gfm.rules (Scope.nested ⟨.block, 99, []⟩ Scope.isInList)
        (squeezed "a\n\n- b".toList) Point.start = .ok bs ∧
      readBlocks Flavor.gfm.rules ⟨.block, 99, []⟩ (bulleted "a\n\n- b".toList) Point.start =
        .ok [.node ⟨listName, ⟨Point.start, Point.start.advance (bulleted "a\n\n- b".toList)⟩⟩
          (.list false none ((lines "a\n\n- b".toList).any isBlank))
          [.node ⟨listName, ⟨Point.start, Point.start.advance (bulleted "a\n\n- b".toList)⟩⟩
            (.listItem none ((lines "a\n\n- b".toList).any isBlank)) bs]] := by
  have hnest : (⟨.block, 99, []⟩ : Scope).canNest = true := by decide
  have hlines : lines "a\n\n- b".toList = ["a\n".toList, "\n".toList, "- b".toList] := by cbv
  have h : IsItemText "a\n\n- b".toList :=
    { starts := ⟨'a', rfl, by decide⟩
      task := by rw [hlines]; decide
      rule := by rw [hlines]; decide
      blank := by rw [hlines]; decide
      last := by rw [hlines]; decide }
  have hsingle : (lines "a\n\n- b".toList).IsChain NotBothBlank := by rw [hlines]; decide
  obtain ⟨hsqueezed, hread⟩ := items_are_transparent .gfm hnest h Point.start
  exact ⟨hnest, h, hsqueezed hsingle, hread⟩

/-- Fenced code with two blank lines in it. -/
def fencedGap : Text := "\x60\x60\x60\na\n\n\nb\n\x60\x60\x60\n".toList

/-- Fenced code in an item loses the second blank line of a run. -/
theorem item_loses_blank_lines :
    IsItemText fencedGap ∧
    (∃ span, readBlocks Flavor.markdown.rules (Scope.document.nested Scope.isInList) fencedGap
      Point.start = .ok [.leaf ⟨"fences", span⟩ (.code none "a\n\n\nb".toList)]) ∧
    ∃ list item span, readBlocks Flavor.markdown.rules Scope.document (bulleted fencedGap)
      Point.start = .ok [.node list (.list false none true) [.node item (.listItem none true)
        [.leaf ⟨"fences", span⟩ (.code none "a\n\nb".toList)]]] := by
  have hlines : lines fencedGap = ["\x60\x60\x60\n".toList, "a\n".toList, "\n".toList, "\n".toList,
      "b\n".toList, "\x60\x60\x60\n".toList] := by cbv
  refine ⟨?_, ?_, ?_⟩
  · exact
      { starts := ⟨'\x60', rfl, by decide⟩
        task := by rw [hlines]; decide
        rule := by rw [hlines]; decide
        blank := by rw [hlines]; decide
        last := by rw [hlines]; decide }
  · refine ⟨⟨Point.start, Point.start.advance fencedGap⟩, ?_⟩
    cbv
  · refine ⟨⟨listName, ⟨Point.start, Point.start.advance (bulleted fencedGap)⟩⟩,
      ⟨listName, ⟨Point.start, Point.start.advance (bulleted fencedGap)⟩⟩,
      ⟨Point.start, Point.start.advance (squeezed fencedGap)⟩, ?_⟩
    cbv

end Item

end Docmark
