import Mathlib
import Docmark.Proofs.Container.Gleaning
import Docmark.Proofs.Text.Bytes

/-!
# Where the items of a list lie

The scan for the items of a list takes line by line, and counts characters as it goes.  What it
makes of a text is said by `LaidOut`: each item has a stretch of the text for itself, which has no
fewer bytes than the item holds, and between two items there are only blank lines.  From that come
the spans of the items, in the order of the items and without overlap.

## Main results

* `listScan?_laidOut` — the items of a list are laid out in its text.
* `LaidOut.inOrder`, `LaidOut.blankBetween` — the spans of items that are laid out.
-/

namespace Docmark

/-! ## Spans in order -/

/-- Spans in source order without overlap, between two offsets. -/
def InOrder : Nat → List Span → Nat → Prop
  | p, [], q => p ≤ q
  | p, s :: ss, q => p ≤ s.start.offset ∧ s.start.offset ≤ s.stop.offset ∧
      InOrder s.stop.offset ss q

@[simp] lemma inOrder_nil {p q : Nat} : InOrder p [] q ↔ p ≤ q := Iff.rfl

@[simp] lemma inOrder_cons {p q : Nat} {s : Span} {ss : List Span} :
    InOrder p (s :: ss) q ↔ p ≤ s.start.offset ∧ s.start.offset ≤ s.stop.offset ∧
      InOrder s.stop.offset ss q := Iff.rfl

namespace InOrder

variable {p q r : Nat} {ss ss' : List Span}

lemma le (h : InOrder p ss q) : p ≤ q := by
  induction ss generalizing p with
  | nil => exact h
  | cons s ss ih =>
    obtain ⟨hp, hs, hss⟩ := h
    exact hp.trans (hs.trans (ih hss))

lemma mono_left (h : InOrder p ss q) (hr : r ≤ p) : InOrder r ss q := by
  cases ss with
  | nil => exact hr.trans h
  | cons s ss => exact ⟨hr.trans h.1, h.2⟩

lemma mono_right (h : InOrder p ss q) (hr : q ≤ r) : InOrder p ss r := by
  induction ss generalizing p with
  | nil => exact le_trans h hr
  | cons s ss ih => exact ⟨h.1, h.2.1, ih h.2.2⟩

lemma append (h : InOrder p ss q) (h' : InOrder q ss' r) : InOrder p (ss ++ ss') r := by
  induction ss generalizing p with
  | nil => exact h'.mono_left h
  | cons s ss ih => exact ⟨h.1, h.2.1, ih h.2.2⟩

/-- Spans in order end where the last of them ends. -/
lemma upTo {s : Span} (h : InOrder p ss q) (hs : ss.getLast? = some s) :
    InOrder p ss s.stop.offset := by
  induction ss generalizing p with
  | nil => cases hs
  | cons s' ss ih =>
    obtain ⟨hp, hs', hss⟩ := h
    refine ⟨hp, hs', ?_⟩
    cases ss with
    | nil =>
      cases hs
      exact le_rfl
    | cons s'' ss => exact ih hss (by rwa [List.getLast?_cons_cons] at hs)

end InOrder

/-! ## Items in a text -/

/-- Lines that are blank, one after the other. -/
def AreBlankLines (gap : Text) : Prop :=
  ∃ ls : List Text, gap = ls.flatten ∧ ∀ l ∈ ls, isBlank l = true ∧ l.getLast? = some '\n'

lemma areBlankLines_nil : AreBlankLines [] := ⟨[], rfl, by simp⟩

lemma AreBlankLines.then_line {gap line : Text} (h : AreBlankLines gap)
    (hblank : isBlank line = true) (hline : line.getLast? = some '\n') :
    AreBlankLines (gap ++ line) := by
  obtain ⟨ls, rfl, hls⟩ := h
  refine ⟨ls ++ [line], by simp, fun l hl => ?_⟩
  rcases List.mem_append.1 hl with hl | hl
  · exact hls l hl
  · rw [List.mem_singleton.1 hl]
    exact ⟨hblank, hline⟩

/-- Items that lie one behind the other in a text, from the place `offset` characters behind the
start of their list.  Each takes at least as many bytes as it holds, and behind each but the last a
line ends and only blank lines follow up to the next. -/
def LaidOut (offset : Nat) : List ItemScan → Text → Prop
  | [], _ => True
  | item :: items, text => ∃ body gap rest, text = body ++ gap ++ rest ∧
      item.start = offset ∧ item.stop = offset + body.length ∧
      byteLength item.content ≤ byteLength body ∧ AreBlankLines gap ∧
      (items ≠ [] → body.getLast? = some '\n') ∧
      LaidOut (offset + body.length + gap.length) items rest

/-- Only the last line of a text may lack its line feed. -/
lemma AreLines.getLast?_head {l : Text} {ls : List Text} (h : AreLines (l :: ls)) (hls : ls ≠ []) :
    l.getLast? = some '\n' := by
  cases h with
  | last => exact absurd rfl hls
  | cons => exact List.getLast?_concat

lemma AreLines.head_ne_nil {l : Text} {ls : List Text} (h : AreLines (l :: ls)) : l ≠ [] := by
  cases h with
  | last hne => exact hne
  | cons => exact List.append_ne_nil_of_right_ne_nil _ (List.cons_ne_nil _ _)

lemma byteLength_stripIndent_le (width : Nat) (line : Text) :
    byteLength (stripIndent width line) ≤ byteLength line := by
  obtain ⟨front, -, hline⟩ := stripIndent_losesFront width line
  have hsuffix : stripIndent width line <:+ line := ⟨front, hline.symm⟩
  exact byteLength_le_of_sublist hsuffix.sublist

lemma ItemScan.Adds.byteLength_le {item : ItemScan} {line content : Text}
    (h : item.Adds line content) : byteLength content ≤ byteLength line := by
  obtain rfl | rfl := h
  · exact byteLength_stripIndent_le _ line
  · exact byteLength_le_of_sublist (List.dropWhile_suffix isSpace).sublist

/-- An item that has taken `body`, with `gap` behind it, and goes on in a further line. -/
lemma byteLength_addLine_le {item : ItemScan} {body gap line rest : Text} {blank : Bool}
    {stop : Nat} (hbytes : byteLength item.content ≤ byteLength body)
    (hgap : blank = true → gap ≠ []) (hline : byteLength rest ≤ byteLength line) :
    byteLength (item.addLine blank rest stop).content ≤ byteLength (body ++ gap ++ line) := by
  simp only [ItemScan.addLine, byteLength_append]
  cases blank with
  | true =>
    have hpos := byteLength_pos (hgap rfl)
    have hfeed : byteLength ['\n'] = 1 := by decide
    simp only [if_true, hfeed]
    omega
  | false =>
    simp only [Bool.false_eq_true, if_false, byteLength_nil]
    omega

/-- **The scan lays items out.**  The item that is being collected has taken `body` so far, and
`gap` are the blank lines behind it. -/
lemma scanItems_laidOut (first : ListMarker) {ls : List Text} (item : ItemScan) (blank : Bool)
    (body gap : Text) (hls : AreLines ls)
    (hstop : item.stop = item.start + body.length)
    (hbytes : byteLength item.content ≤ byteLength body)
    (hblank : blank = true → gap ≠ [])
    (hmore : ls ≠ [] → body.getLast? = some '\n' ∧ AreBlankLines gap) :
    LaidOut item.start
      (scanItems first item (item.start + body.length + gap.length) blank ls).items
      (body ++ gap ++ ls.flatten) := by
  induction ls generalizing item blank body gap with
  | nil =>
    refine ⟨body, [], gap, by simp, rfl, hstop, hbytes, areBlankLines_nil, ?_, trivial⟩
    exact fun h => absurd rfl h
  | cons line rest ih =>
    obtain ⟨hend, hgap⟩ := hmore (List.cons_ne_nil _ _)
    have hline : line ≠ [] := hls.head_ne_nil
    have hfeed : rest ≠ [] → line.getLast? = some '\n' := hls.getLast?_head
    have hstep := scanItems_step first item (item.start + body.length + gap.length) blank line rest
    generalize scanItems first item (item.start + body.length + gap.length) blank (line :: rest) =
      scan at hstep ⊢
    cases hstep with
    | skips hisblank =>
      have hnext := ih item true body (gap ++ line) hls.tail hstop hbytes (by simp [hline])
        (fun hrest => ⟨hend, hgap.then_line hisblank (hfeed hrest)⟩)
      rw [List.flatten_cons]
      simpa [Nat.add_assoc] using hnext
    | @goesOn behind content _ hbehind hcontent =>
      -- the body of the item is all up to the end of this line
      have hlength : (body ++ gap ++ line).length = body.length + gap.length + line.length := by
        simp only [List.length_append]
      have hoffset : item.start + body.length + gap.length + line.length =
          item.start + (body ++ gap ++ line).length + ([] : Text).length := by
        rw [hlength, List.length_nil]
        omega
      have hnext := ih (item.addLine behind content
          (item.start + body.length + gap.length + line.length)) false (body ++ gap ++ line) []
        hls.tail
        (by rw [hlength]; simp only [ItemScan.addLine]; omega)
        (byteLength_addLine_le hbytes (hblank ∘ hbehind) hcontent.byteLength_le) (by simp)
        (fun hrest => ⟨by rw [List.getLast?_append, hfeed hrest]; rfl, areBlankLines_nil⟩)
      rw [List.flatten_cons, hoffset]
      simpa [ItemScan.addLine, Nat.add_assoc] using hnext
    | @begins marker _ _ _ hscan =>
      refine ⟨body, gap, (line :: rest).flatten, rfl, rfl, hstop, hbytes, hgap, fun _ => hend, ?_⟩
      have hdrop := List.drop_suffix marker.contentOffset line
      have hnext := ih (.ofLine marker (item.start + body.length + gap.length) line) false
        line [] hls.tail rfl (byteLength_le_of_sublist hdrop.sublist) (by simp)
        (fun hrest => ⟨hfeed hrest, areBlankLines_nil⟩)
      rw [hscan]
      simpa [ItemScan.ofLine] using hnext
    | ends => exact ⟨body, gap, _, rfl, rfl, hstop, hbytes, hgap, fun h => absurd rfl h, trivial⟩

/-- The items of a list are laid out in the text that it is read from. -/
lemma listScan?_laidOut {cs : Text} {marker : ListMarker} {scan : ListScan}
    (h : listScan? (lines cs) = some (marker, scan)) : LaidOut 0 scan.items cs := by
  have hls := lines_areLines cs
  have hcs := lines_flatten cs
  obtain ⟨line, rest, hlines, -, rfl⟩ := exists_of_listScan? h
  rw [hlines] at hls hcs
  have hdrop := List.drop_suffix marker.contentOffset line
  have hlaid := scanItems_laidOut marker (.ofLine marker 0 line) false line [] hls.tail rfl
    (byteLength_le_of_sublist hdrop.sublist) (by simp)
    (fun hrest => ⟨hls.getLast?_head hrest, areBlankLines_nil⟩)
  rw [← hcs, List.flatten_cons]
  simpa [ItemScan.ofLine] using hlaid

/-! ## The spans of items -/

/-- The span of an item of a list that starts at a cursor. -/
def ItemScan.spanIn (cur : Cursor) (item : ItemScan) : Span :=
  ⟨cur.pointAt item.start, cur.pointAt item.stop⟩

/-- Between two points of a text that starts at `origin` there are only blank lines. -/
def BlankBetween (text : Text) (origin p q : Point) : Prop :=
  ∃ before gap after, text = before ++ gap ++ after ∧ p = origin.advance before ∧
    q = origin.advance (before ++ gap) ∧ before.getLast? = some '\n' ∧ AreBlankLines gap

lemma Cursor.pointAt_length {cur : Cursor} {before after : Text} (h : cur.rest = before ++ after) :
    cur.pointAt before.length = cur.point.advance before := by
  rw [Cursor.pointAt, h, List.take_left]

namespace LaidOut

variable {cur : Cursor} {items : List ItemScan} {before text : Text}

lemma start_head {offset : Nat} {first : ItemScan} (h : LaidOut offset items text)
    (hfirst : items.head? = some first) : first.start = offset := by
  cases items with
  | nil => cases hfirst
  | cons item items =>
    cases hfirst
    obtain ⟨body, gap, rest, -, hstart, -⟩ := h
    exact hstart

/-- The item that is laid out first in what follows `before`. -/
lemma spanIn_head {item : ItemScan} {body : Text} (rest : Text)
    (hrest : cur.rest = before ++ (body ++ rest)) (hstart : item.start = before.length)
    (hstop : item.stop = before.length + body.length) :
    item.spanIn cur = ⟨cur.point.advance before, cur.point.advance (before ++ body)⟩ := by
  have hbody : cur.rest = before ++ body ++ rest := by rw [hrest, List.append_assoc]
  rw [ItemScan.spanIn, hstart, hstop, ← List.length_append, Cursor.pointAt_length hrest,
    Cursor.pointAt_length hbody]

lemma inOrder (h : LaidOut before.length items text) (hrest : cur.rest = before ++ text) :
    InOrder (cur.point.advance before).offset (items.map (ItemScan.spanIn cur))
      (cur.point.advance cur.rest).offset := by
  induction items generalizing before text with
  | nil =>
    rw [hrest, List.map_nil, inOrder_nil, Point.advance_offset, Point.advance_offset,
      byteLength_append]
    omega
  | cons item items ih =>
    obtain ⟨body, gap, rest, rfl, hstart, hstop, -, -, -, hitems⟩ := h
    rw [← List.length_append, ← List.length_append] at hitems
    have hspan := spanIn_head (gap ++ rest) (by rw [hrest, List.append_assoc]) hstart hstop
    have hnext := ih hitems (by rw [hrest]; simp only [List.append_assoc])
    rw [List.map_cons, inOrder_cons, hspan]
    refine ⟨le_rfl, ?_, hnext.mono_left ?_⟩
    · simp only [Point.advance_offset, byteLength_append]
      omega
    · simp only [Point.advance_offset, byteLength_append]
      omega

/-- Behind an item there are only blank lines up to the next. -/
lemma blankBetween (h : LaidOut before.length items text) (hrest : cur.rest = before ++ text) :
    (items.map (ItemScan.spanIn cur)).IsChain
      fun s next => BlankBetween cur.rest cur.point s.stop next.start := by
  induction items generalizing before text with
  | nil => exact .nil
  | cons item items ih =>
    obtain ⟨body, gap, rest, rfl, hstart, hstop, -, hgap, hend, hitems⟩ := h
    rw [← List.length_append, ← List.length_append] at hitems
    have hspan := spanIn_head (gap ++ rest) (by rw [hrest, List.append_assoc]) hstart hstop
    have hrest' : cur.rest = before ++ body ++ gap ++ rest := by
      rw [hrest]
      simp only [List.append_assoc]
    rw [List.map_cons]
    refine .cons (ih hitems hrest') fun next hnext => ?_
    cases items with
    | nil => cases hnext
    | cons item' items =>
      cases hnext
      obtain ⟨body', gap', rest', rfl, hstart', hstop', -⟩ := hitems
      have hspan' := spanIn_head (gap' ++ rest') (by rw [hrest', List.append_assoc body'])
        hstart' hstop'
      rw [hspan, hspan']
      refine ⟨before ++ body, gap, _, hrest', rfl, rfl, ?_, hgap⟩
      rw [List.getLast?_append, hend (List.cons_ne_nil _ _), Option.some_or]

/-- What an item holds has no more bytes than the item. -/
lemma content_le (h : LaidOut before.length items text) (hrest : cur.rest = before ++ text) :
    ∀ item ∈ items, (item.spanIn cur).start.offset + byteLength item.content ≤
      (item.spanIn cur).stop.offset := by
  induction items generalizing before text with
  | nil => simp
  | cons item items ih =>
    obtain ⟨body, gap, rest, rfl, hstart, hstop, hbytes, -, -, hitems⟩ := h
    rw [← List.length_append, ← List.length_append] at hitems
    have hspan := spanIn_head (gap ++ rest) (by rw [hrest, List.append_assoc]) hstart hstop
    refine List.forall_mem_cons.2 ⟨?_, ih hitems (by rw [hrest]; simp only [List.append_assoc])⟩
    rw [hspan]
    simp only [Point.advance_offset, byteLength_append]
    omega

end LaidOut

end Docmark
