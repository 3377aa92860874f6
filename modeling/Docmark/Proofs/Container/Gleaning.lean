import Mathlib
import Docmark.Proofs.Container.Content
import Docmark.Proofs.Text.Gleaned

/-!
# The lines of containers

Block quotes and list items glean their content from the lines of their text: marks, markers and
indentation are left out at the front of lines, and an item sets one line feed for each run of blank
lines in it.

## Main results

* `quotedText_gleaned` — the text inside a quote.
* `listScan?_gleaned` — the text of each item of a list.
-/

namespace Docmark

/-! ## Quotes -/

lemma stripQuoteMark_losesFront (line : Text) : LosesFront line (stripQuoteMark line) := by
  have hbody : LosesFront line (line.dropWhile fun c => decide (c = ' ')) :=
    .dropWhile (by decide) line
  simp only [stripQuoteMark]
  refine hbody.trans ?_
  -- behind the mark, if there is one, one blank or tab is left out
  split
  next rest hrest =>
    split at hrest
    next after hmark =>
      rw [hmark, hrest]
      exact (LosesFront.cons (by decide) _).trans (.cons (by decide) rest)
    next =>
      rw [hrest]
      exact .cons (by decide) rest
  next rest hrest =>
    split at hrest
    next after hmark =>
      rw [hmark, hrest]
      exact (LosesFront.cons (by decide) _).trans (.cons (by decide) rest)
    next =>
      rw [hrest]
      exact .cons (by decide) rest
  next =>
    split
    next after hmark =>
      rw [hmark]
      exact .cons (by decide) after
    next => exact .refl _

/-- A line of a quote has a mark of its own, or it runs on from the paragraph of another line. -/
lemma marked_of_mem_quoteLines {ls : List Text} :
    ∀ l ∈ quoteLines ls, startsQuote l = true ∨ isBlank l = false := by
  intro l hl
  cases ls with
  | nil => cases hl
  | cons first rest =>
    rw [quoteLines] at hl
    split at hl
    next hfirst =>
      rcases List.mem_cons.1 hl with rfl | hl
      · exact .inl hfirst
      · have hrun := List.mem_takeWhile_imp hl
        simp only [Bool.or_eq_true, Bool.not_eq_true', Bool.or_eq_false_iff] at hrun
        exact hrun.imp_right And.left
    next => cases hl

/-- A line of a quote loses its mark, or the white space in front of it. -/
lemma quotedLine_losesFront {line : Text} (hline : '\n' ∉ line.dropLast)
    (h : startsQuote line = true ∨ isBlank line = false) : LosesFront line (quotedLine line) := by
  rw [quotedLine]
  split
  · exact stripQuoteMark_losesFront line
  next hquote => exact trimStart_losesFront hline (h.resolve_left hquote)

lemma flatMap_gleaned {f : Text → Text} {ls : List Text} (h : ∀ l ∈ ls, LosesFront l (f l)) :
    Gleaned ls (ls.flatMap f) := by
  induction ls with
  | nil => exact .nil
  | cons l ls ih =>
    rw [List.flatMap_cons]
    exact .take (h l List.mem_cons_self) (ih fun l' hl' => h l' (List.mem_cons_of_mem _ hl'))

/-- The text inside a quote is gleaned from the lines of the text, those of the quote. -/
lemma quotedText_gleaned (cs : Text) :
    Gleaned (lines cs) (quotedText (quoteLines (lines cs))) := by
  have hquote : Gleaned (quoteLines (lines cs)) (quotedText (quoteLines (lines cs))) := by
    refine flatMap_gleaned fun l hl => quotedLine_losesFront ?_ (marked_of_mem_quoteLines l hl)
    exact (lines_areLines cs).feed_not_mem l ((quoteLines_initial _).subset hl)
  obtain ⟨behind, hbehind⟩ := quoteLines_initial (lines cs)
  have hlines := hquote.append_right behind
  rwa [hbehind] at hlines

/-! ## Items -/

lemma markerSign?_feed {cs : Text} {size : Nat} {delimiter : Char} {number : Option Nat}
    (h : markerSign? cs = some (size, delimiter, number)) : '\n' ∉ cs.take size := by
  simp only [markerSign?] at h
  split at h
  next => cases h
  next c rest =>
    split at h
    next hbullet =>
      cases h
      rw [List.take_succ_cons, List.take_zero, List.mem_singleton]
      rintro rfl
      simp at hbullet
    next =>
      split at h
      next => cases h
      next =>
        split at h
        next d after hafter =>
          split at h
          next hdelimiter =>
            have hsign : (c :: rest).takeWhile Char.isDigit ++ [d] <+: c :: rest := by
              refine ⟨after, ?_⟩
              rw [List.append_assoc, List.singleton_append, ← hafter,
                List.prefix_iff_eq_append.1 (List.takeWhile_prefix _)]
            cases h
            have htake := List.prefix_of_prefix_length_le
              (List.take_prefix (((c :: rest).takeWhile Char.isDigit).length + 1) _) hsign (by simp)
            intro hfeed
            rcases List.mem_append.1 (htake.subset hfeed) with hdigit | hend
            · exact absurd (List.mem_takeWhile_imp hdigit) (by decide)
            · rw [← List.mem_singleton.1 hend] at hdelimiter
              exact absurd hdelimiter (by decide)
          next => cases h
        next => cases h

/-- The characters of a marker are left out of its line. -/
lemma listMarker?_losesFront {line : Text} {marker : ListMarker}
    (h : listMarker? line = some marker) : LosesFront line (line.drop marker.contentOffset) := by
  simp only [listMarker?] at h
  split at h
  next => cases h
  next =>
    split at h
    next => cases h
    next size delimiter number hsign =>
      split at h
      next => cases h
      next =>
        cases h
        have hbody : line.drop (line.length - (line.dropWhile isPad).length) =
            line.dropWhile isPad :=
          (List.suffix_iff_eq_drop.1 (List.dropWhile_suffix isPad)).symm
        have hsize : LosesFront (line.dropWhile isPad) ((line.dropWhile isPad).drop size) :=
          ⟨_, markerSign?_feed hsign, (List.take_append_drop size _).symm⟩
        dsimp only
        rw [← List.drop_drop, ← List.drop_drop, hbody]
        exact (LosesFront.dropWhile (by decide) line).trans
          (hsize.trans (.drop (by decide) (markerPadding_le _ _)))

lemma stripIndent_losesFront (width : Nat) (line : Text) :
    LosesFront line (stripIndent width line) := by
  rw [stripIndent]
  fun_induction stripIndentFrom width 0 line with
  | case1 => exact .refl _
  | case2 => exact .refl _
  | case3 removed cs _ ih => exact (LosesFront.cons (by decide) cs).trans ih
  | case4 removed cs _ _ ih => exact (LosesFront.cons (by decide) cs).trans ih
  | case5 => exact .refl _

/-- The box of a task is left out of its item. -/
lemma splitTask_suffix (content : Text) : (splitTask content).2 <:+ content := by
  simp only [splitTask]
  split
  · exact ⟨['[', ' ', ']', ' '], rfl⟩
  · exact ⟨['[', 'x', ']', ' '], rfl⟩
  · exact ⟨['[', 'X', ']', ' '], rfl⟩
  · exact List.suffix_rfl

/-- One more line of an item is gleaned behind those before it. -/
lemma addLine_gleaned {item : ItemScan} {taken : List Text} {line rest : Text} {blank : Bool}
    {stop : Nat} (hitem : Gleaned taken item.content) (hline : LosesFront line rest) :
    Gleaned (taken ++ [line]) (item.addLine blank rest stop).content := by
  have hfeed : Gleaned [line] ((if blank then ['\n'] else []) ++ rest) := by
    cases blank with
    | true => exact .feed (.one hline)
    | false => exact .one hline
  rw [ItemScan.addLine, List.append_assoc]
  exact hitem.append hfeed

/-- What an item takes of a line that is not blank, the line has behind its front. -/
lemma ItemScan.Adds.losesFront {item : ItemScan} {line content : Text} (h : item.Adds line content)
    (hline : '\n' ∉ line.dropLast) (hblank : isBlank line = false) : LosesFront line content := by
  obtain rfl | rfl := h
  · exact stripIndent_losesFront _ line
  · exact trimStart_losesFront hline hblank

/-- What the items of a list hold is gleaned from the lines that were scanned for them. -/
lemma scanItems_gleaned {first : ListMarker} {item : ItemScan} {offset : Nat} {blank : Bool}
    {taken ls : List Text} (hls : ∀ l ∈ ls, '\n' ∉ l.dropLast)
    (hitem : Gleaned taken item.content) :
    ∀ i ∈ (scanItems first item offset blank ls).items, Gleaned (taken ++ ls) i.content := by
  induction ls generalizing item offset blank taken with
  | nil =>
    intro i hi
    rw [List.mem_singleton.1 hi, List.append_nil]
    exact hitem
  | cons line rest ih =>
    obtain ⟨hline, hrest⟩ := List.forall_mem_cons.1 hls
    have hlast : Gleaned (taken ++ line :: rest) item.content := hitem.append_right _
    rw [List.append_cons] at hlast ⊢
    have hstep := scanItems_step first item offset blank line rest
    generalize scanItems first item offset blank (line :: rest) = scan at hstep ⊢
    cases hstep with
    | skips => exact ih hrest (hitem.append_right [line])
    | goesOn hblank _ hcontent =>
      exact ih hrest (addLine_gleaned hitem (hcontent.losesFront hline hblank))
    | begins _ hmarker hscan =>
      rw [hscan]
      refine List.forall_mem_cons.2 ⟨hlast, ih hrest ?_⟩
      exact (Gleaned.none taken).append (.one (listMarker?_losesFront hmarker))
    | ends => exact List.forall_mem_singleton.2 hlast

/-- The text of each item of a list is gleaned from the lines of the text. -/
lemma listScan?_gleaned {cs : Text} {marker : ListMarker} {scan : ListScan}
    (h : listScan? (lines cs) = some (marker, scan)) :
    ∀ item ∈ scan.items, Gleaned (lines cs) item.content := by
  have hfeed := (lines_areLines cs).feed_not_mem
  obtain ⟨line, rest, hlines, hmarker, rfl⟩ := exists_of_listScan? h
  rw [hlines] at hfeed ⊢
  have hitem : Gleaned [line] (ItemScan.ofLine marker 0 line).content :=
    .one (listMarker?_losesFront hmarker)
  exact scanItems_gleaned (List.forall_mem_cons.1 hfeed).2 hitem

end Docmark
