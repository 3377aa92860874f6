import Mathlib
import Docmark.Proofs.FinalFeed.Container

/-!
# Blank lines of a list

The scan for the items of a list notes where it passes blank lines: an item is spaced if one stands
in front of a further line of it, and the list is spaced if one stands in front of a further item.
Both notes can be read off the outcome.  The lines that an item goes on with are not blank, so a
blank line of what it holds is a line feed that the scan has put in; and the items of a list that is
not spaced lie next to each other.

## Main results

* `listScan?_tells` — an item is spaced if and only if what it holds has a blank line.
* `listScan?_spaced` — a list is spaced if and only if two of its items are apart.
-/

namespace Docmark

/-! ## Blank lines -/

/-- A blank line of a text, behind a line and in front of `after`. -/
def HasBlankLine (cs after : Text) : Prop :=
  ∃ before line, cs = before ++ line ++ after ∧ before.getLast? = some '\n' ∧
    isBlank line = true ∧ line.getLast? = some '\n'

/-- A line feed behind a line is a blank line. -/
lemma hasBlankLine_of_feed {before : Text} (h : before.getLast? = some '\n') (after : Text) :
    HasBlankLine (before ++ '\n' :: after) after :=
  ⟨before, ['\n'], by simp, h, by decide, rfl⟩

namespace HasBlankLine

variable {cs after : Text}

/-- A blank line stays one in a longer text. -/
lemma inside (h : HasBlankLine cs after) (front rest : Text) :
    HasBlankLine (front ++ cs ++ rest) (after ++ rest) := by
  obtain ⟨before, line, rfl, hbefore, hblank, hline⟩ := h
  refine ⟨front ++ before, line, by simp only [List.append_assoc], ?_, hblank, hline⟩
  rw [List.getLast?_append, hbefore, Option.some_or]

lemma two_le_count (h : HasBlankLine cs after) : 2 ≤ cs.count '\n' := by
  obtain ⟨before, line, rfl, hbefore, -, hline⟩ := h
  have hfirst := List.one_le_count_iff.2 (List.mem_of_getLast? hbefore)
  have hsecond := List.one_le_count_iff.2 (List.mem_of_getLast? hline)
  rw [List.count_append, List.count_append]
  omega

end HasBlankLine

lemma isBlank_append (cs ds : Text) : isBlank (cs ++ ds) = (isBlank cs && isBlank ds) :=
  List.all_append

/-- White space over two lines has a blank one. -/
lemma exists_hasBlankLine_of_isBlank {cs : Text} (hblank : isBlank cs = true)
    (hcount : 2 ≤ cs.count '\n') : ∃ after, HasBlankLine cs after := by
  obtain ⟨before, behind, rfl, hbefore⟩ := List.eq_append_cons_of_mem
    (List.one_le_count_iff.1 ((Nat.le_succ 1).trans hcount))
  have hbehind : '\n' ∈ behind := by
    rw [List.count_append, List.count_eq_zero.2 hbefore, List.count_cons_self] at hcount
    exact List.one_le_count_iff.1 (by omega)
  obtain ⟨line, after, rfl⟩ := List.append_of_mem hbehind
  refine ⟨after, before ++ ['\n'], line ++ ['\n'], by simp, List.getLast?_concat, ?_,
    List.getLast?_concat⟩
  rw [List.append_cons, List.append_cons line, isBlank_append, isBlank_append (line ++ _),
    Bool.and_eq_true, Bool.and_eq_true] at hblank
  exact hblank.2.1

/-! ## Items -/

/-- What is left of a line ends as the line does. -/
lemma LosesFront.getLast?_feed {line rest : Text} (h : LosesFront line rest)
    (hline : line.getLast? = some '\n') : rest.getLast? = some '\n' := by
  obtain ⟨front, hfront, rfl⟩ := h
  rw [List.getLast?_append] at hline
  cases hrest : rest.getLast? with
  | some c => rwa [hrest] at hline
  | none =>
    rw [hrest, Option.none_or] at hline
    exact absurd (List.mem_of_getLast? hline) hfront

lemma LosesFront.feed_not_mem {line rest : Text} (h : LosesFront line rest)
    (hline : '\n' ∉ line.dropLast) : '\n' ∉ rest.dropLast := by
  obtain ⟨front, -, rfl⟩ := h
  cases rest with
  | nil => simp
  | cons c rest =>
    rw [List.dropLast_append_of_ne_nil (List.cons_ne_nil c rest)] at hline
    exact fun hfeed => hline (List.mem_append_right _ hfeed)

/-- `spaced` tells whether a text has a blank line.  If it has one, then one that is a line feed of
its own with something that is not blank behind it. -/
structure TellsBlankLine (spaced : Bool) (cs : Text) : Prop where
  told : ∀ after, HasBlankLine cs after → spaced = true
  exists_feed : spaced = true → ∃ before after, cs = before ++ '\n' :: after ∧
    before.getLast? = some '\n' ∧ isBlank after = false

namespace TellsBlankLine

/-- One line has no blank line. -/
lemma of_line {cs : Text} (h : '\n' ∉ cs.dropLast) : TellsBlankLine false cs where
  told after hafter := by
    obtain ⟨before, line, rfl, hbefore, -, hline⟩ := hafter
    have hne : line ≠ [] := by
      rintro rfl
      cases hline
    rw [List.append_assoc, List.dropLast_append_of_ne_nil (by simp [hne])] at h
    exact absurd (List.mem_append_left _ (List.mem_of_getLast? hbefore)) h
  exists_feed := nofun

/-- What is left out at the front of the first line is no blank line. -/
lemma losesFront {spaced : Bool} {cs rest : Text} (h : TellsBlankLine spaced cs)
    (hloses : LosesFront cs rest) : TellsBlankLine spaced rest := by
  obtain ⟨front, hfront, rfl⟩ := hloses
  refine ⟨fun after hafter => ?_, fun hspaced => ?_⟩
  · have hinside := hafter.inside front []
    rw [List.append_nil] at hinside
    exact h.told _ hinside
  · obtain ⟨before, after, hsplit, hbefore, hafter⟩ := h.exists_feed hspaced
    rcases List.append_eq_append_iff.1 hsplit with ⟨start, rfl, rfl⟩ | ⟨start, rfl, -⟩
    · rw [List.getLast?_append] at hbefore
      cases hstart : start.getLast? with
      | some c =>
        rw [hstart, Option.some_or] at hbefore
        exact ⟨start, after, rfl, by rw [hstart, hbefore], hafter⟩
      | none =>
        rw [hstart, Option.none_or] at hbefore
        exact absurd (List.mem_of_getLast? hbefore) hfront
    · exact absurd (List.mem_append_left _ (List.mem_of_getLast? hbefore)) hfront

end TellsBlankLine

/-- A line that is not blank adds no blank line: whatever ends in it holds all of it. -/
lemma hasBlankLine_of_append {cs line after : Text} (hline : '\n' ∉ line.dropLast)
    (hblank : isBlank line = false) (h : HasBlankLine (cs ++ line) after) :
    ∃ after', HasBlankLine cs after' := by
  obtain ⟨before, gap, hsplit, hbefore, hgap, hend⟩ := h
  -- nothing of the line stands behind its line feed
  have hstop {front behind : Text} (hfront : front.getLast? = some '\n')
      (hfeed : line = front ++ behind) : behind = [] := by
    by_contra hne
    rw [hfeed, List.dropLast_append_of_ne_nil hne] at hline
    exact hline (List.mem_append_left _ (List.mem_of_getLast? hfront))
  rcases List.append_eq_append_iff.1 hsplit with ⟨front, hfront, hfeed⟩ | ⟨behind, rfl, -⟩
  · rcases List.append_eq_append_iff.1 hfront with ⟨start, hcs, hstart⟩ | ⟨start, hstart, hrest⟩
    · by_cases hne : front = []
      · rw [hne, List.append_nil] at hstart
        exact ⟨[], before, gap, by simp [hcs, hstart], hbefore, hgap, hend⟩
      · rw [hstart, List.getLast?_append_of_ne_nil _ hne] at hend
        rw [hstop hend hfeed, List.append_nil] at hfeed
        rw [hstart, isBlank_append, ← hfeed, hblank, Bool.and_false] at hgap
        cases hgap
    · rw [hrest, List.append_assoc] at hfeed
      by_cases hne : start = []
      · rw [hne, List.nil_append] at hfeed
        rw [hstop hend hfeed, List.append_nil] at hfeed
        rw [hfeed, hgap] at hblank
        cases hblank
      · rw [hstart, List.getLast?_append_of_ne_nil _ hne] at hbefore
        rw [(List.append_eq_nil_iff.1 (hstop hbefore hfeed)).1] at hend
        cases hend
  · exact ⟨behind, before, gap, rfl, hbefore, hgap, hend⟩

/-- An item that goes on with one more line that is not blank. -/
lemma TellsBlankLine.addLine {item : ItemScan} {line : Text} (blank : Bool) (stop : Nat)
    (h : TellsBlankLine item.spaced item.content) (hend : item.content.getLast? = some '\n')
    (hline : '\n' ∉ line.dropLast) (hblank : isBlank line = false) :
    TellsBlankLine (item.addLine blank line stop).spaced
      (item.addLine blank line stop).content := by
  cases blank with
  | true =>
    refine ⟨fun _ _ => by simp [ItemScan.addLine], fun _ => ?_⟩
    exact ⟨item.content, line, by simp [ItemScan.addLine], hend, hblank⟩
  | false =>
    simp only [ItemScan.addLine, Bool.or_false, Bool.false_eq_true, if_false, List.append_nil]
    refine ⟨fun after hafter => ?_, fun hspaced => ?_⟩
    · obtain ⟨after', hafter'⟩ := hasBlankLine_of_append hline hblank hafter
      exact h.told after' hafter'
    · obtain ⟨before, after, hsplit, hbefore, hafter⟩ := h.exists_feed hspaced
      refine ⟨before, after ++ line, by rw [hsplit]; simp, hbefore, ?_⟩
      rw [isBlank_append, hafter, Bool.false_and]

/-- **A scan takes note of the blank lines of its items.** -/
lemma scanItems_tells {first : ListMarker} {item : ItemScan} {offset : Nat} {blank : Bool}
    {ls : List Text} (hls : AreLines ls)
    (hitem : TellsBlankLine item.spaced item.content)
    (hend : ls ≠ [] → item.content.getLast? = some '\n') :
    ∀ i ∈ (scanItems first item offset blank ls).items, TellsBlankLine i.spaced i.content := by
  induction ls generalizing item offset blank with
  | nil =>
    intro i hi
    rw [List.mem_singleton.1 hi]
    exact hitem
  | cons line rest ih =>
    have hend := hend (List.cons_ne_nil _ _)
    have hfeed : rest ≠ [] → line.getLast? = some '\n' := hls.getLast?_head
    have hline : '\n' ∉ line.dropLast := hls.feed_not_mem line List.mem_cons_self
    have hstep := scanItems_step first item offset blank line rest
    generalize scanItems first item offset blank (line :: rest) = scan at hstep ⊢
    cases hstep with
    | skips => exact ih hls.tail hitem fun _ => hend
    | @goesOn behind content hblank _ hcontent =>
      -- the item goes on with what is left of the line
      have hloses := hcontent.losesFront hline hblank
      refine ih hls.tail (hitem.addLine behind _ hend (hloses.feed_not_mem hline)
        (hcontent.isBlank_eq_false hblank)) fun hrest => ?_
      rw [ItemScan.addLine, List.getLast?_append, hloses.getLast?_feed (hfeed hrest),
        Option.some_or]
    | begins _ hmarker hscan =>
      have hloses := listMarker?_losesFront hmarker
      rw [hscan]
      refine List.forall_mem_cons.2 ⟨hitem, ih hls.tail ?_ fun hrest => ?_⟩
      · exact TellsBlankLine.of_line (hloses.feed_not_mem hline)
      · exact hloses.getLast?_feed (hfeed hrest)
    | ends => exact List.forall_mem_singleton.2 hitem

lemma listScan?_tells {cs : Text} {marker : ListMarker} {scan : ListScan}
    (h : listScan? (lines cs) = some (marker, scan)) :
    ∀ item ∈ scan.items, TellsBlankLine item.spaced item.content := by
  have hls := lines_areLines cs
  obtain ⟨line, rest, hlines, hmarker, rfl⟩ := exists_of_listScan? h
  rw [hlines] at hls
  have hloses := listMarker?_losesFront hmarker
  refine scanItems_tells hls.tail (.of_line ?_) fun hrest => ?_
  · exact hloses.feed_not_mem (hls.feed_not_mem line List.mem_cons_self)
  · exact hloses.getLast?_feed (hls.getLast?_head hrest)

/-- The box of a task is left out of the first line. -/
lemma splitTask_losesFront (content : Text) : LosesFront content (splitTask content).2 := by
  simp only [splitTask]
  split
  · exact ⟨['[', ' ', ']', ' '], by decide, rfl⟩
  · exact ⟨['[', 'x', ']', ' '], by decide, rfl⟩
  · exact ⟨['[', 'X', ']', ' '], by decide, rfl⟩
  · exact .refl content

/-! ## Between items -/

lemma scanItems_start {first : ListMarker} {item : ItemScan} {offset : Nat} {blank : Bool}
    {ls : List Text} :
    ∀ i ∈ (scanItems first item offset blank ls).items.head?, i.start = item.start := by
  induction ls generalizing item offset blank with
  | nil => simp [scanItems]
  | cons line rest ih =>
    have hstep := scanItems_step first item offset blank line rest
    generalize scanItems first item offset blank (line :: rest) = scan at hstep ⊢
    cases hstep with
    | skips => exact ih
    | goesOn => exact ih
    | begins => simp
    | ends => simp

/-- **A scan takes note of the gaps between items.**  Where it does not, each item starts where the
one before it stops. -/
lemma scanItems_spaced {first : ListMarker} {item : ItemScan} {offset : Nat} {blank : Bool}
    {ls : List Text} (hls : ∀ l ∈ ls, l ≠ []) (hle : item.stop ≤ offset)
    (hblank : blank = false ↔ offset = item.stop) :
    (scanItems first item offset blank ls).spaced = false ↔
      (scanItems first item offset blank ls).items.IsChain fun a b => b.start = a.stop := by
  induction ls generalizing item offset blank with
  | nil => simp [scanItems]
  | cons line rest ih =>
    obtain ⟨hline, hrest⟩ := List.forall_mem_cons.1 hls
    have hpos := List.length_pos_iff.2 hline
    have hstep := scanItems_step first item offset blank line rest
    generalize scanItems first item offset blank (line :: rest) = scan at hstep ⊢
    cases hstep with
    | skips => exact ih hrest (by omega) (by simp; omega)
    | goesOn => exact ih hrest le_rfl (by simp [ItemScan.addLine])
    | @begins marker _ _ _ hscan =>
      have hnext := @ih (.ofLine marker offset line) _ false hrest le_rfl (by simp)
      obtain ⟨next, hhead⟩ := Option.isSome_iff_exists.1
        (List.isSome_head?.2 (@scanItems_ne_nil first (.ofLine marker offset line)
          (offset + line.length) false rest))
      have hstart : next.start = offset := scanItems_start next hhead
      rw [hscan, List.isChain_cons, Bool.or_eq_false_iff, hblank, hhead, ← hstart, and_comm]
      simp only [Option.mem_def, Option.some.injEq, forall_eq']
      exact and_congr_right fun _ => hstart ▸ hnext
    | ends => simp

lemma listScan?_isChain {cs : Text} {marker : ListMarker} {scan : ListScan}
    (h : listScan? (lines cs) = some (marker, scan)) :
    scan.spaced = false ↔ scan.items.IsChain fun a b => b.start = a.stop := by
  obtain ⟨line, rest, hlines, -, rfl⟩ := exists_of_listScan? h
  have hrest : ∀ l ∈ rest, l ≠ [] := fun l hl =>
    ne_nil_of_mem_lines (by rw [hlines]; exact List.mem_cons_of_mem _ hl)
  exact scanItems_spaced hrest (by simp [ItemScan.ofLine]) (by simp [ItemScan.ofLine])

/-- Places in a text that are not the same have not the same point. -/
lemma Cursor.pointAt_inj {cur : Cursor} {m n : Nat} (hm : m ≤ cur.rest.length)
    (hn : n ≤ cur.rest.length) : cur.pointAt m = cur.pointAt n ↔ m = n := by
  refine ⟨fun h => ?_, fun h => h ▸ rfl⟩
  have hle {m n : Nat} (hmn : m ≤ n) (hn : n ≤ cur.rest.length)
      (h : cur.pointAt m = cur.pointAt n) : m = n := by
    obtain ⟨k, rfl⟩ := Nat.exists_eq_add_of_le hmn
    have hoffset := congrArg Point.offset h
    rw [pointAt, pointAt, Point.advance_offset, Point.advance_offset, List.take_add,
      byteLength_append] at hoffset
    have hnil : (cur.rest.drop m).take k = [] := by
      by_contra hne
      have hpos := byteLength_pos hne
      omega
    have hlength := congrArg List.length hnil
    rw [List.length_take, List.length_drop, List.length_nil] at hlength
    omega
  rcases Nat.le_total m n with hmn | hnm
  · exact hle hmn hn h
  · exact (hle hnm hm h.symm).symm

/-- Blank lines, and nothing else, stand between two items that follow one another in a list. -/
def ItemsApart (cur : Cursor) (items : List ItemScan) : Prop :=
  ∃ a b, [a, b] <:+: items ∧ (a.spanIn cur).stop ≠ (b.spanIn cur).start ∧
    BlankBetween cur.rest cur.point (a.spanIn cur).stop (b.spanIn cur).start

/-- **A list is spaced if and only if two of its items are apart.** -/
lemma listScan?_spaced {cur : Cursor} {marker : ListMarker} {scan : ListScan}
    (h : listScan? (lines cur.rest) = some (marker, scan)) :
    scan.spaced = true ↔ ItemsApart cur scan.items := by
  have hlaid : LaidOut ([] : Text).length scan.items cur.rest := listScan?_laidOut h
  have hbetween {a b : ItemScan} (hab : [a, b] <:+: scan.items) :
      BlankBetween cur.rest cur.point (a.spanIn cur).stop (b.spanIn cur).start := by
    have hchain := (List.isChain_map _).1 (hlaid.blankBetween rfl)
    simpa using hchain.infix hab
  have hapart {a b : ItemScan} (hab : [a, b] <:+: scan.items) :
      (a.spanIn cur).stop ≠ (b.spanIn cur).start ↔ b.start ≠ a.stop := by
    have ha := (hlaid.within a (hab.subset (by simp))).2
    have hb := (hlaid.within b (hab.subset (by simp))).1
    rw [List.length_nil, Nat.zero_add] at ha hb
    exact (not_congr (Cursor.pointAt_inj ha hb)).trans ⟨Ne.symm, Ne.symm⟩
  rw [← Bool.not_eq_false, listScan?_isChain h]
  constructor
  · intro hchain
    simp only [List.isChain_iff_forall_rel_of_append_cons_cons, not_forall] at hchain
    obtain ⟨a, b, before, after, hitems, hne⟩ := hchain
    have hab : [a, b] <:+: scan.items := ⟨before, after, by simp [hitems]⟩
    exact ⟨a, b, hab, (hapart hab).2 hne, hbetween hab⟩
  · rintro ⟨a, b, hab, hne, -⟩ hchain
    exact (hapart hab).1 hne (by simpa using hchain.infix hab)

end Docmark
