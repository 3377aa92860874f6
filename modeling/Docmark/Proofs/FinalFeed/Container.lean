import Mathlib
import Docmark.Proofs.Container.Item
import Docmark.Proofs.Container.Layout
import Docmark.Proofs.FinalFeed.Leaf
import Docmark.Proofs.Reading.Spans

/-!
# Containers at the end of a text

A block quote or a list that takes the last line of a text takes the line feed that is added to it,
and passes it on to its content; a line feed on a line of its own belongs to neither.  The content
of a quote may then end with a line feed although the text does not, where its last line is nothing
but a mark.
-/

namespace Docmark

/-! ## How texts end -/

/-- A text that is made of whole lines. -/
def EndsLine (text : Text) : Prop := text = [] ∨ text.getLast? = some '\n'

/-- A text that ends in a line with something to read, or is not even one line. -/
def EndsWithin (text : Text) : Prop :=
  '\n' ∉ text ∨ ∃ before line, text = before ++ line ∧ '\n' ∉ line ∧ isBlank line = false

lemma endsLine_feed (text : Text) : EndsLine (text ++ ['\n']) := .inr (by simp)

/-- What is left of a text behind its front ends in the same way. -/
lemma EndsLine.suffix {text rest : Text} (h : EndsLine text) (hrest : rest <:+ text) :
    EndsLine rest := by
  obtain ⟨front, rfl⟩ := hrest
  obtain hnil | hlast := h
  · exact .inl (List.append_eq_nil_iff.1 hnil).2
  · rw [EndsLine, or_iff_not_imp_left]
    intro hne
    rwa [List.getLast?_append_of_ne_nil _ hne] at hlast

lemma EndsWithin.suffix {text rest : Text} (h : EndsWithin text) (hrest : rest <:+ text) :
    EndsWithin rest := by
  obtain hfeed | ⟨before, line, rfl, hline, hblank⟩ := h
  · exact .inl fun hmem => hfeed (hrest.subset hmem)
  · obtain hsuffix | ⟨front, rfl⟩ :=
      List.suffix_or_suffix_of_suffix hrest (List.suffix_append before line)
    · exact .inl fun hmem => hline (hsuffix.subset hmem)
    · exact .inr ⟨front, line, rfl, hline, hblank⟩

lemma EndsWithin.getLast? {text : Text} (h : EndsWithin text) : text.getLast? ≠ some '\n' := by
  intro hlast
  obtain hfeed | ⟨before, line, rfl, hline, hblank⟩ := h
  · exact hfeed (List.mem_of_getLast? hlast)
  · have hne : line ≠ [] := by
      rintro rfl
      cases hblank
    rw [List.getLast?_append_of_ne_nil _ hne] at hlast
    exact hline (List.mem_of_getLast? hlast)

/-! ## Block quotes -/

lemma Chosen.quoteLines {ls ls' : List Text} (h : FedLines ls ls') :
    Chosen ls ls' (quoteLines ls) (quoteLines ls') := by
  have hstop := Chosen.nothing h
  cases h with
  | own => exact hstop
  | @last l hne hl =>
    simp only [Docmark.quoteLines, startsQuote_feed, List.takeWhile_nil]
    split
    · exact .last hne hl
    · exact hstop
  | @cons l ls ls' hl hls =>
    simp only [Docmark.quoteLines]
    split
    · refine .cons hl (.takeWhile (fun m hm _ => ?_) ?_ hls)
      · rw [startsQuote_feed, isBlank_feed, interruptsParagraph_feed hm]
      · simp only [isBlank_singleton_feed, Bool.true_or, Bool.not_true, Bool.or_false]
        decide
    · exact hstop

/-- The text inside a quote gets the line feed that its last line gets. -/
lemma FeedsLast.quotedText {ls ls' : List Text} (h : FeedsLast (quoteLines ls) ls') :
    quotedText ls' = quotedText (quoteLines ls) ++ ['\n'] :=
  h.flatMap fun l hl => quotedLine_feed (marked_of_mem_quoteLines l hl)

/-! ## Lists -/

/-- The item with one more line feed at its end. -/
def ItemScan.feed (item : ItemScan) : ItemScan :=
  { item with stop := item.stop + 1, content := item.content ++ ['\n'] }

/-- The items of a list in a text, and those in the text with one more line feed: the same ones, or
the last one takes the line feed. -/
inductive ListScan.Fed (text : Text) : ListScan → ListScan → Prop
  | stays {scan : ListScan}
      (h : ∀ item, scan.items.getLast? = some item → Stays text item.stop) : Fed text scan scan
  | grows {before : List ItemScan} {last : ItemScan} {spaced : Bool}
      (hend : text.getLast? ≠ some '\n') (hstop : last.stop = text.length)
      (hlast : EndsWithin last.content) :
      Fed text ⟨before ++ [last], spaced⟩ ⟨before ++ [last.feed], spaced⟩

lemma stripIndent_suffix (width : Nat) (line : Text) : stripIndent width line <:+ line := by
  obtain ⟨front, -, hline⟩ := stripIndent_losesFront width line
  exact ⟨front, hline.symm⟩

lemma isBlank_stripIndent {line : Text} (h : isBlank line = false) (width : Nat) :
    isBlank (stripIndent width line) = false := by
  rw [stripIndent]
  fun_induction stripIndentFrom width 0 line with
  | case1 => exact h
  | case2 => exact h
  | case3 removed cs _ ih =>
    exact ih (by simpa [isBlank, show isSpace ' ' = true by decide] using h)
  | case4 removed cs _ _ ih =>
    exact ih (by simpa [isBlank, show isSpace '\t' = true by decide] using h)
  | case5 => exact h

lemma isBlank_trimStart {line : Text} (h : isBlank line = false) :
    isBlank (trimStart line) = false := by
  rw [← List.takeWhile_append_dropWhile (p := isSpace) (l := line)] at h
  have hfront : (line.takeWhile isSpace).all isSpace = true :=
    List.all_eq_true.2 fun c hc => List.mem_takeWhile_imp hc
  rwa [isBlank, List.all_append, hfront, Bool.true_and] at h

lemma ItemScan.Adds.isBlank_eq_false {item : ItemScan} {line content : Text}
    (h : item.Adds line content) (hline : isBlank line = false) : isBlank content = false := by
  obtain rfl | rfl := h
  · exact isBlank_stripIndent hline _
  · exact isBlank_trimStart hline

/-- Of a whole line an item takes a whole line. -/
lemma ItemScan.Adds.exists_feed {item : ItemScan} {line content : Text}
    (h : item.Adds (line ++ ['\n']) content) (hline : isBlank (line ++ ['\n']) = false) :
    ∃ kept, content = kept ++ ['\n'] := by
  rw [isBlank_feed] at hline
  obtain rfl | rfl := h
  · exact ⟨_, stripIndent_feed _ line⟩
  · exact ⟨_, trimStart_feed hline⟩

/-- A marker ends in front of the line feed. -/
lemma drop_contentOffset_feed {line : Text} {marker : ListMarker} (hne : line ≠ [])
    (h : listMarker? line = some marker) :
    (line ++ ['\n']).drop marker.contentOffset = line.drop marker.contentOffset ++ ['\n'] := by
  obtain ⟨front, hfeed, hline⟩ := listMarker?_losesFront (listMarker?_feed hne ▸ h)
  by_cases hle : marker.contentOffset ≤ line.length
  · exact drop_feed hle
  · rw [List.drop_eq_nil_of_le (by simp; omega), List.append_nil] at hline
    exact absurd (hline ▸ List.mem_append_right _ List.mem_cons_self) hfeed

lemma ItemScan.addLine_feed (item : ItemScan) (blank : Bool) (line : Text) (stop : Nat) :
    item.addLine blank (line ++ ['\n']) (stop + 1) = (item.addLine blank line stop).feed := by
  simp [addLine, feed]

lemma ItemScan.ofLine_feed {line : Text} {marker : ListMarker} (hne : line ≠ [])
    (h : listMarker? line = some marker) (start : Nat) :
    ofLine marker start (line ++ ['\n']) = (ofLine marker start line).feed := by
  simp [ofLine, feed, drop_contentOffset_feed hne h, Nat.add_assoc]

/-- The box of a task stands in front of the line feed. -/
lemma splitTask_feed (cs : Text) :
    splitTask (cs ++ ['\n']) = ((splitTask cs).1, (splitTask cs).2 ++ ['\n']) := by
  fun_cases splitTask cs with
  | case1 | case2 | case3 => rfl
  | case4 _ hopen hdone hmarked =>
    refine splitTask_eq_none fun c hc hbox => ?_
    have hfeed : '\n' ∉ ['[', c, ']', ' '] := by
      rintro hmem
      simp at hmem
      subst hmem
      simp at hc
    rw [← List.append_nil (cs ++ ['\n'])] at hbox
    obtain ⟨rest, rfl⟩ := prefix_of_line hfeed hbox
    simp only [List.mem_cons, List.not_mem_nil, or_false] at hc
    obtain rfl | rfl | rfl := hc
    · exact hopen rest rfl
    · exact hdone rest rfl
    · exact hmarked rest rfl

namespace ListScan.Fed

variable {text : Text} {scan scan' : ListScan}

lemma alone {item : ItemScan} (h : Stays text item.stop) {spaced : Bool} :
    Fed text ⟨[item], spaced⟩ ⟨[item], spaced⟩ :=
  .stays fun _ hlast => by
    cases hlast
    exact h

lemma cons {item : ItemScan} (h : Fed text scan scan') (hne : scan.items ≠ []) (spaced : Bool) :
    Fed text ⟨item :: scan.items, scan.spaced || spaced⟩
      ⟨item :: scan'.items, scan'.spaced || spaced⟩ := by
  cases h with
  | stays h =>
    refine .stays fun last hlast => h last ?_
    rwa [List.getLast?_cons_of_ne_nil hne] at hlast
  | @grows before last spaced' hend hstop hlast =>
    have hgrows : Fed text ⟨(item :: before) ++ [last], spaced' || spaced⟩
        ⟨(item :: before) ++ [last.feed], spaced' || spaced⟩ := .grows hend hstop hlast
    exact hgrows

end ListScan.Fed

/-- What a last line does to the item in front of it: it ends the list, or it goes on with the item
or begins another, which then takes the line feed. -/
lemma scanItems_last {first : ListMarker} {item : ItemScan} {before l : Text} {blank : Bool}
    (hne : l ≠ []) (hl : '\n' ∉ l) (hstop : item.stop ≤ before.length) :
    ListScan.Fed (before ++ l) (scanItems first item before.length blank [l])
      (scanItems first item before.length blank [l ++ ['\n']]) := by
  have hlength : before.length + (l ++ ['\n']).length = before.length + l.length + 1 := by
    rw [List.length_append, Nat.add_assoc]
    rfl
  have hend : before.length + l.length = (before ++ l).length := List.length_append.symm
  have hopen : (before ++ l).getLast? ≠ some '\n' := by
    rw [List.getLast?_append_of_ne_nil _ hne]
    exact fun hlast => hl (List.mem_of_getLast? hlast)
  have hstays : Stays (before ++ l) item.stop := by
    left
    have := List.length_pos_iff.2 hne
    rw [← hend]
    omega
  have hgrows {last : ItemScan} (hstop : last.stop = before.length + l.length)
      (hlast : EndsWithin last.content) (pre : List ItemScan) (spaced : Bool) :
      ListScan.Fed (before ++ l) ⟨pre ++ [last], spaced⟩ ⟨pre ++ [last.feed], spaced⟩ :=
    .grows hopen (hstop.trans hend) hlast
  have hadd {rest : Text} (hrest : rest <:+ l) (hline : isBlank rest = false) (blank : Bool) :
      EndsWithin (item.addLine blank rest (before.length + l.length)).content :=
    .inr ⟨_, rest, rfl, fun hmem => hl (hrest.subset hmem), hline⟩
  simp only [scanItems, isBlank_feed, indentation_feed, listMarker?_feed hne,
    isThematicBreak_feed, interruptsParagraph_feed hne, hlength]
  split
  · exact .alone hstays
  next hblank =>
    have hblank : isBlank l = false := by simpa using hblank
    split
    · rw [stripIndent_feed, ItemScan.addLine_feed]
      exact hgrows rfl (hadd (stripIndent_suffix _ l) (isBlank_stripIndent hblank _) blank) [] false
    · split
      next marker hmarker =>
        rw [ItemScan.ofLine_feed hne (Option.filter_eq_some_iff.1 hmarker).1]
        exact hgrows rfl (.inl fun hmem => hl (List.mem_of_mem_drop hmem)) [item] _
      next =>
        split
        · rw [trimStart_feed hblank, ItemScan.addLine_feed]
          exact hgrows rfl (hadd (List.dropWhile_suffix _) (isBlank_trimStart hblank) false) [] false
        · exact .alone hstays

lemma scanItems_fed {first : ListMarker} {item : ItemScan} {before : Text} {blank : Bool}
    {ls ls' : List Text} (hbefore : before.getLast? = some '\n')
    (hstop : item.stop ≤ before.length) (h : FedLines ls ls') :
    ListScan.Fed (before ++ ls.flatten) (scanItems first item before.length blank ls)
      (scanItems first item before.length blank ls') := by
  induction h generalizing item before blank with
  | own =>
    simp only [scanItems, isBlank_singleton_feed, if_true, List.flatten_nil, List.append_nil]
    refine .alone ?_
    obtain hlt | heq := Nat.lt_or_eq_of_le hstop
    · exact .inl hlt
    · exact .inr ⟨heq, hbefore⟩
  | last hne hl =>
    rw [List.flatten_singleton]
    exact scanItems_last hne hl hstop
  | @cons l ls ls' hl hls ih =>
    have hlength : before.length + (l ++ ['\n']).length = (before ++ (l ++ ['\n'])).length := by
      rw [← List.length_append]
    have hstop' : item.stop ≤ (before ++ (l ++ ['\n'])).length := by
      rw [← hlength]
      omega
    have hbefore' : (before ++ (l ++ ['\n'])).getLast? = some '\n' := by simp
    rw [List.flatten_cons, ← List.append_assoc]
    simp only [scanItems, hlength]
    split
    · exact ih hbefore' hstop'
    · split
      · exact ih hbefore' le_rfl
      · split
        · refine (ih hbefore' ?_).cons scanItems_ne_nil _
          exact hlength.le
        · split
          · exact ih hbefore' le_rfl
          · refine .alone (.inl ?_)
            simp only [List.length_append, List.length_cons]
            omega

/-- The items of a list are the same, or the last of them takes the line feed. -/
lemma listScan?_fed (cs : Text) :
    (listScan? (lines cs) = none ∧ listScan? (lines (cs ++ ['\n'])) = none) ∨
      ∃ marker scan scan', listScan? (lines cs) = some (marker, scan) ∧
        listScan? (lines (cs ++ ['\n'])) = some (marker, scan') ∧ scan.Fed cs scan' := by
  have hfed := fedLines_lines cs
  have hcs := lines_flatten cs
  generalize lines cs = ls at hfed hcs
  generalize lines (cs ++ ['\n']) = ls' at hfed
  subst hcs
  cases hfed with
  | own => exact .inl ⟨rfl, by decide⟩
  | @last l hne hl =>
    simp only [listScan?, listMarker?_feed hne, isThematicBreak_feed]
    cases hmarker : listMarker? l with
    | none => exact .inl ⟨rfl, rfl⟩
    | some marker =>
      dsimp only
      split
      · exact .inl ⟨rfl, rfl⟩
      · refine .inr ⟨marker, _, _, rfl, rfl, ?_⟩
        rw [ItemScan.ofLine_feed hne hmarker, List.flatten_singleton]
        have hgrows : ListScan.Fed l ⟨[] ++ [.ofLine marker 0 l], false⟩
            ⟨[] ++ [(ItemScan.ofLine marker 0 l).feed], false⟩ :=
          .grows (fun hlast => hl (List.mem_of_getLast? hlast)) (Nat.zero_add _)
            (.inl fun hmem => hl (List.mem_of_mem_drop hmem))
        exact hgrows
  | @cons l ls ls' hl hls =>
    simp only [listScan?]
    cases listMarker? (l ++ ['\n']) with
    | none => exact .inl ⟨rfl, rfl⟩
    | some marker =>
      dsimp only
      split
      · exact .inl ⟨rfl, rfl⟩
      · refine .inr ⟨marker, _, _, rfl, rfl, ?_⟩
        rw [List.flatten_cons]
        exact scanItems_fed (by simp) (Nat.zero_add _).le hls

/-- A list is as loose as before. -/
lemma ListScan.Fed.loose {text : Text} {scan scan' : ListScan} (h : scan.Fed text scan') :
    scan'.loose = scan.loose := by
  cases h with
  | stays => rfl
  | grows => simp [ListScan.loose, ItemScan.feed]

/-! ## Content of whole lines -/

/-- The lines of a text that ends with a line feed are whole lines. -/
lemma exists_of_mem_lines {text l : Text} (htext : EndsLine text) (hl : l ∈ lines text) :
    ∃ line, l = line ++ ['\n'] := by
  have hlines {ls : List Text} (h : AreLines ls) (hends : EndsLine ls.flatten) :
      ∀ l ∈ ls, ∃ line, l = line ++ ['\n'] := by
    induction h with
    | nil => simp
    | @last l hne hl =>
      obtain hnil | hlast := hends
      · exact absurd (by simpa using hnil) hne
      · exact absurd (List.mem_of_getLast? (by simpa using hlast)) hl
    | @cons l ls _ _ ih =>
      refine List.forall_mem_cons.2 ⟨⟨l, rfl⟩, ih (hends.suffix ?_)⟩
      rw [List.flatten_cons]
      exact List.suffix_append _ _
  exact hlines (lines_areLines text) (by rwa [lines_flatten]) l hl

/-- Lines that each yield a whole line yield whole lines. -/
lemma endsLine_flatMap {f : Text → Text} {ls : List Text}
    (h : ∀ l ∈ ls, ∃ line, f l = line ++ ['\n']) : EndsLine (ls.flatMap f) := by
  obtain rfl | ⟨front, last, rfl⟩ := List.eq_nil_or_concat' ls
  · exact .inl rfl
  · obtain ⟨line, hline⟩ := h last (by simp)
    rw [List.flatMap_append, List.flatMap_singleton, hline, ← List.append_assoc]
    exact endsLine_feed _

lemma quotedText_endsLine {text : Text} (h : EndsLine text) :
    EndsLine (quotedText (quoteLines (lines text))) := by
  refine endsLine_flatMap fun l hl => ?_
  have hmark := marked_of_mem_quoteLines l hl
  obtain ⟨line, rfl⟩ := exists_of_mem_lines h ((quoteLines_initial _).subset hl)
  rw [startsQuote_feed, isBlank_feed] at hmark
  exact ⟨_, quotedLine_feed hmark⟩

lemma scanItems_endsLine {first : ListMarker} {item : ItemScan} {offset : Nat} {blank : Bool}
    {ls : List Text} (hls : ∀ l ∈ ls, ∃ line, l = line ++ ['\n']) (hitem : EndsLine item.content) :
    ∀ i ∈ (scanItems first item offset blank ls).items, EndsLine i.content := by
  have hadd (item : ItemScan) (blank : Bool) (line : Text) (stop : Nat) :
      EndsLine (item.addLine blank (line ++ ['\n']) stop).content := by
    rw [ItemScan.addLine, ← List.append_assoc]
    exact endsLine_feed _
  have halone : ∀ i ∈ [item], EndsLine i.content := by simpa using hitem
  induction ls generalizing item offset blank with
  | nil => exact halone
  | cons l ls ih =>
    obtain ⟨⟨line, rfl⟩, hrest⟩ := List.forall_mem_cons.1 hls
    have ih {item : ItemScan} {offset : Nat} {blank : Bool} (hitem : EndsLine item.content) :
        ∀ i ∈ (scanItems first item offset blank ls).items, EndsLine i.content :=
      ih hrest hitem (by simpa using hitem)
    have hstep := scanItems_step first item offset blank (line ++ ['\n']) ls
    generalize scanItems first item offset blank ((line ++ ['\n']) :: ls) = scan at hstep ⊢
    cases hstep with
    | skips => exact ih hitem
    | goesOn hblank _ hcontent =>
      obtain ⟨kept, rfl⟩ := hcontent.exists_feed hblank
      exact ih (hadd _ _ _ _)
    | begins _ _ hscan =>
      rw [hscan]
      refine List.forall_mem_cons.2 ⟨hitem, ih ?_⟩
      exact (endsLine_feed line).suffix (List.drop_suffix _ _)
    | ends => exact halone

lemma listScan?_endsLine {text : Text} (h : EndsLine text) {marker : ListMarker} {scan : ListScan}
    (hscan : listScan? (lines text) = some (marker, scan)) :
    ∀ item ∈ scan.items, EndsLine item.content := by
  have hwhole := fun l => exists_of_mem_lines (l := l) h
  obtain ⟨l, rest, hlines, -, rfl⟩ := exists_of_listScan? hscan
  rw [hlines, List.forall_mem_cons] at hwhole
  obtain ⟨⟨line, rfl⟩, hrest⟩ := hwhole
  exact scanItems_endsLine hrest ((endsLine_feed line).suffix (List.drop_suffix _ _))

/-! ## Readers of content -/

section Columns

variable {p : Point} {cs : Text}

lemma Point.one_le_column_advance (hp : 1 ≤ p.column) (cs : Text) : 1 ≤ (p.advance cs).column := by
  induction cs generalizing p with
  | nil => exact hp
  | cons c cs ih =>
    refine ih ?_
    rw [step]
    split
    · exact le_rfl
    · exact Nat.le_add_left 1 _

/-- Behind a line feed a line begins. -/
lemma Point.column_advance_of_endsLine (hne : cs ≠ []) (h : EndsLine cs) :
    (p.advance cs).column = 1 := by
  obtain ⟨front, rfl⟩ := List.getLast?_eq_some_iff.1 (h.resolve_left hne)
  rw [advance_append]
  rfl

/-- Behind any other character no line begins. -/
lemma Point.column_advance_ne_one (hp : 1 ≤ p.column) (hne : cs ≠ [])
    (h : cs.getLast? ≠ some '\n') : (p.advance cs).column ≠ 1 := by
  obtain rfl | ⟨front, c, rfl⟩ := List.eq_nil_or_concat' cs
  · exact absurd rfl hne
  · have hc : c ≠ '\n' := by
      rintro rfl
      exact h (by simp)
    have hfront := one_le_column_advance hp front
    rw [advance_append, advance_cons, advance_nil, step, if_neg hc]
    show (p.advance front).column + 1 ≠ 1
    omega

end Columns

/-- A reader of blocks that never fails and makes of one more line feed what is said of constructs:
the blocks grow at their end. -/
structure BlockReader.TakesFeed (read : BlockReader) : Prop where
  total : read.IsTotal
  /-- Among the blocks of whole lines every container at the end ends with a line. -/
  closed : ∀ {scope : Scope} {text : Text} {origin : Point} {bs : List Block}, EndsLine text →
    read scope text origin = .ok bs → Block.endsOpenAll false bs = false
  grows : ∀ (scope : Scope) (text : Text) {origin : Point}, 1 ≤ origin.column →
    ∃ bs bs', read scope text origin = .ok bs ∧ read scope (text ++ ['\n']) origin = .ok bs' ∧
      GrowsAtEnd (Block.endsOpenAll true bs) (Block.Grows (Block.endsOpenAll true bs)) bs bs' ∧
      (EndsWithin text → (1 < bs.length ↔ 1 < bs'.length))

section Containers

variable {read : BlockReader} {scope : Scope} {cur : Cursor} {rule : String}

/-- The items of a list lie within its text. -/
lemma LaidOut.within {items : List ItemScan} {offset : Nat} {text : Text}
    (h : LaidOut offset items text) :
    ∀ item ∈ items, item.start ≤ offset + text.length ∧ item.stop ≤ offset + text.length := by
  induction items generalizing offset text with
  | nil => simp
  | cons item items ih =>
    obtain ⟨body, gap, rest, rfl, hstart, hstop, -, -, -, hitems⟩ := h
    simp only [List.length_append]
    refine List.forall_mem_cons.2 ⟨by omega, fun item hitem => ?_⟩
    have := ih hitems item hitem
    omega

lemma spanOf_length : cur.spanOf cur.rest.length = ⟨cur.point, cur.point.advance cur.rest⟩ := by
  rw [Cursor.spanOf, Cursor.drop, List.take_length]

lemma blockquote?_of_read {bs : List Block} (hquote : quoteLines (lines cur.rest) ≠ [])
    (hbs : read (scope.nested Scope.isBlockQuote) (quotedText (quoteLines (lines cur.rest)))
      cur.point = .ok bs) :
    blockquote? read scope cur = .ok (some ⟨(quoteLines (lines cur.rest)).flatten.length,
      .node .blockquote (groupCallouts bs)⟩) := by
  simp only [blockquote?, hbs]

lemma list?_of_read {marker : ListMarker} {scan : ListScan} {items : List Block}
    (hscan : listScan? (lines cur.rest) = some (marker, scan))
    (hitems : scan.items.mapM (readItem read scope cur scan.loose) = .ok items) :
    list? read scope cur = .ok (some ⟨(scan.items.getLast?.map (·.stop)).getD 0,
      .node (.list marker.ordered marker.number scan.loose) items⟩) := by
  simp only [list?, hscan, hitems]

lemma readItem_of_read {loose : Bool} {item : ItemScan} {bs : List Block}
    (hbs : read (scope.nested Scope.isInList) (splitTask item.content).2 (cur.pointAt item.start) =
      .ok bs) :
    readItem read scope cur loose item =
      .ok (.node ⟨listName, item.spanIn cur⟩ (.listItem (splitTask item.content).1 loose) bs) := by
  simp only [readItem, hbs, ItemScan.spanIn]

/-- The task mark of an item is in front of what is read in it. -/
lemma readItem_feed {loose : Bool} {item : ItemScan} {bs : List Block}
    (hstart : item.start ≤ cur.rest.length)
    (hbs : read (scope.nested Scope.isInList) ((splitTask item.content).2 ++ ['\n'])
      (cur.pointAt item.start) = .ok bs) :
    readItem read scope cur.feed loose item.feed =
      .ok (.node ⟨listName, item.feed.spanIn cur.feed⟩
        (.listItem (splitTask item.content).1 loose) bs) := by
  have hcontent : splitTask item.feed.content =
    ((splitTask item.content).1, (splitTask item.content).2 ++ ['\n']) := splitTask_feed _
  rw [← congrArg Prod.fst hcontent]
  refine readItem_of_read ?_
  rw [hcontent]
  show read _ _ (cur.feed.pointAt item.start) = _
  rw [cur.feed_pointAt hstart]
  exact hbs

variable (hread : read.TakesFeed)

include hread

/-- A quote of whole lines ends with a line, and so does what stands at its end. -/
lemma blockquote?_closed {m : Found Block.Body} (hends : EndsLine cur.rest) (hrest : cur.rest ≠ [])
    (h : blockquote? read scope cur = .ok (some m)) (within : Bool) :
    (Block.ofBody ⟨rule, cur.spanOf cur.rest.length⟩ m.value).endsOpen within = false := by
  obtain ⟨-, bs, hbs, rfl⟩ := exists_of_blockquote? h
  rw [Block.ofBody, Block.endsOpen_node, spanOf_length,
    Point.column_advance_of_endsLine hrest hends]
  exact (Block.endsOpenAll_groupCallouts false bs).trans
    (hread.closed (quotedText_endsLine hends) hbs)

theorem blockquote?_fed (hcolumn : 1 ≤ cur.point.column) (hrest : cur.rest ≠ []) :
    ∃ m m', blockquote? read scope cur = .ok m ∧ blockquote? read scope cur.feed = .ok m' ∧
      Found.Fed (Block.Body.Feeds ⟨rule, cur.spanOf cur.rest.length⟩) cur.rest m m' := by
  have hchosen := Chosen.quoteLines (fedLines_lines cur.rest)
  by_cases hquote : quoteLines (lines cur.rest) = []
  · refine ⟨none, none, ?_, ?_, .none⟩
    · simp only [blockquote?, hquote]
    · simp only [blockquote?, Cursor.feed_rest, hchosen.eq_nil_iff.2 hquote]
  · have hquote' : quoteLines (lines cur.feed.rest) ≠ [] := mt hchosen.eq_nil_iff.1 hquote
    obtain ⟨bs, bs', hbs, hbs', hgrows, -⟩ := hread.grows (scope.nested Scope.isBlockQuote)
      (quotedText (quoteLines (lines cur.rest))) hcolumn
    have hok := blockquote?_of_read hquote hbs
    obtain ⟨hsame, hstays⟩ | ⟨hall, hall', hlast⟩ := hchosen.cases_lines hrest
    · rw [← Cursor.feed_rest] at hsame
      have hok' : blockquote? read scope cur.feed = _ :=
        blockquote?_of_read hquote' (by rw [hsame]; exact hbs)
      rw [hsame] at hok'
      refine ⟨_, _, hok, hok', .of_stays hstays fun _ hend => .node ?_⟩
      exact blockquote?_closed hread (.inr hend) hrest hok true
    · rw [← hlast.quotedText] at hbs'
      have hok' : blockquote? read scope cur.feed = _ := blockquote?_of_read hquote' hbs'
      refine ⟨_, _, hok, hok', ?_⟩
      rw [Cursor.feed_rest, hall, hall', List.length_append, List.length_singleton]
      refine .grows fun h' hh => ?_
      have hcolumn' := Point.column_advance_ne_one hcolumn hrest (hall ▸ hlast.getLast?_flatten)
      have hopen : (Block.ofBody ⟨rule, cur.spanOf cur.rest.length⟩
          (.node .blockquote (groupCallouts bs))).endsOpen true = Block.endsOpenAll true bs := by
        rw [Block.ofBody, Block.endsOpen_node, Block.endsOpenAll_groupCallouts, spanOf_length,
          bne_iff_ne.2 hcolumn']
        rfl
      rw [hopen]
      exact .node hh (absurd · Bool.false_ne_true) hgrows.groupCallouts

/-- A list of whole lines ends with a line, and so does what stands at its end. -/
lemma list?_closed {m : Found Block.Body} (hends : EndsLine cur.rest) (hrest : cur.rest ≠ [])
    (h : list? read scope cur = .ok (some m)) (hlength : m.length = cur.rest.length)
    (within : Bool) :
    (Block.ofBody ⟨rule, cur.spanOf cur.rest.length⟩ m.value).endsOpen within = false := by
  obtain ⟨marker, scan, items, hscan, hitems, hvalue⟩ := exists_of_list? h
  obtain ⟨last, hlast, -, -⟩ := listScan?_stop hscan
  have hstop : last.stop = cur.rest.length := (list?_length h hscan hlast).symm.trans hlength
  have hcontent := listScan?_endsLine hends hscan last (List.mem_of_getLast? hlast)
  obtain ⟨front, hfront⟩ := List.getLast?_eq_some_iff.1 hlast
  rw [hfront, ← List.forall₂_reverse_iff, List.reverse_concat] at hitems
  obtain ⟨b, rest, hitem, -, hb⟩ := List.forall₂_cons_left_iff.1 hitems
  have hspan := span_of_readItem hitem
  obtain ⟨hd, bs, hbs, rfl⟩ := exists_of_readItem hitem
  have hcolumn : hd.span.stop.column = 1 := by
    rw [show hd.span = last.spanIn cur from hspan]
    show (cur.point.advance (cur.rest.take last.stop)).column = 1
    rw [hstop, List.take_length, Point.column_advance_of_endsLine hrest hends]
  rw [hvalue, List.reverse_eq_cons_iff.1 hb, Block.ofBody, Block.endsOpen_node,
    Block.endsOpenAll_concat, Block.endsOpen_node, hcolumn]
  exact hread.closed (hcontent.suffix (splitTask_suffix _)) hbs

theorem list?_fed (hcolumn : 1 ≤ cur.point.column) (hrest : cur.rest ≠ []) :
    ∃ m m', list? read scope cur = .ok m ∧ list? read scope cur.feed = .ok m' ∧
      Found.Fed (Block.Body.Feeds ⟨rule, cur.spanOf cur.rest.length⟩) cur.rest m m' := by
  have hread' (item : ItemScan) := hread.grows (scope.nested Scope.isInList)
    (splitTask item.content).2 (Point.one_le_column_advance hcolumn (cur.rest.take item.start))
  have hitems (loose : Bool) (items : List ItemScan) :
      ∃ bs, items.mapM (readItem read scope cur loose) = .ok bs := by
    refine exists_mapM_ok _ fun item _ => ?_
    obtain ⟨bs, -, hbs, -⟩ := hread' item
    exact ⟨_, readItem_of_read hbs⟩
  obtain ⟨hnone, hnone'⟩ | ⟨marker, scan, scan', hscan, hscan', hfed⟩ := listScan?_fed cur.rest
  · exact ⟨none, none, by simp only [list?, hnone],
      by simp only [list?, Cursor.feed_rest, hnone'], .none⟩
  · have hloose := hfed.loose
    have hwithin := (listScan?_laidOut hscan).within
    rw [Nat.zero_add] at hwithin
    have hsame (item : ItemScan) (hitem : item ∈ scan.items) :
        readItem read scope cur.feed scan.loose item = readItem read scope cur scan.loose item := by
      obtain ⟨hstart, hstop⟩ := hwithin item hitem
      simp only [readItem, cur.feed_pointAt hstart, cur.feed_pointAt hstop]
    cases hfed with
    | stays hstays =>
      obtain ⟨items, hok⟩ := hitems scan.loose scan.items
      obtain ⟨last, hlast, -, -⟩ := listScan?_stop hscan
      have hlist := list?_of_read hscan hok
      have hlist' : list? read scope cur.feed = _ :=
        list?_of_read hscan' ((mapM_congr hsame).trans hok)
      rw [hlast, Option.map_some, Option.getD_some] at hlist hlist'
      refine ⟨_, _, hlist, hlist', .of_stays (hstays last hlast) fun hall hend => .node ?_⟩
      exact list?_closed hread (.inr hend) hrest hlist hall true
    | @grows before last spaced hend hstop hlast =>
      -- all items but the last are the same, and the last one holds one more line feed
      set loose := ListScan.loose ⟨before ++ [last], spaced⟩
      obtain ⟨items, hbefore⟩ := hitems loose before
      have hbefore' := hbefore ▸ mapM_congr fun item hitem =>
        hsame item (List.mem_append_left _ hitem)
      obtain ⟨bs, bs', hbs, hbs', hgrows, hseveral⟩ := hread' last
      have hitem : readItem read scope cur loose last = _ := readItem_of_read hbs
      have hstart := (hwithin last (by simp)).1
      have hitem' : readItem read scope cur.feed loose last.feed = _ := readItem_feed hstart hbs'
      have hlist := list?_of_read hscan (mapM_concat hbefore hitem)
      have hlist' : list? read scope cur.feed = _ := list?_of_read hscan'
        (hloose ▸ mapM_concat hbefore' hitem')
      rw [List.getLast?_concat, Option.map_some, Option.getD_some, hstop] at hlist
      rw [List.getLast?_concat, Option.map_some, Option.getD_some, hloose] at hlist'
      have hgrown : last.feed.stop = cur.rest.length + 1 := congrArg (· + 1) hstop
      rw [hgrown] at hlist'
      refine ⟨_, _, hlist, hlist', .grows fun h' hh => ?_⟩
      have hpoint : cur.pointAt last.stop = cur.point.advance cur.rest := by
        rw [Cursor.pointAt, hstop, List.take_length]
      have hcolumn' := Point.column_advance_ne_one hcolumn hrest hend
      rw [Block.ofBody, Block.endsOpen_node, Block.endsOpenAll_concat, Block.endsOpen_node,
        ItemScan.spanIn, hpoint, bne_iff_ne.2 hcolumn']
      refine .node hh (absurd · Bool.false_ne_true) (.prepend items (.last ?_))
      refine .node ⟨rfl, ?_⟩ (fun _ => hseveral (hlast.suffix (splitTask_suffix _))) hgrows
      exact cur.feed_pointAt hstart

end Containers

end Docmark
