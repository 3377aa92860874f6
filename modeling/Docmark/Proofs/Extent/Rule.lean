import Mathlib
import Docmark.Proofs.Extent.Bracket
import Docmark.Proofs.Extent.Inline
import Docmark.Proofs.Extent.Leaf
import Docmark.Rule

/-!
# The extent of rules

Every construct of the language covers at least one character of the input that it is tried on, and
no more than there are, whatever its readers for nested content yield
(`BlockConstruct.recognize_fits`, `InlineConstruct.recognize_fits`).  The two rules for plain text
accept every input, so a rule set that holds them always finds a rule.

A list ends where its last item does, so its extent is that of its items: each stands in the text,
from the line of its marker on (`ItemScan.StandsIn`).  What one line does to the scan of a list is
told once, by `ItemScan.Step`, and every fact about whole lists is carried through the lines by it.
-/

namespace Docmark

/-! ## Block quotes -/

lemma quoteLines_initial (ls : List Text) : quoteLines ls <+: ls := by
  cases ls with
  | nil => exact List.nil_prefix
  | cons l ls =>
    simp only [quoteLines]
    split
    · exact (List.prefix_cons_inj l).2 (List.takeWhile_prefix _)
    · exact List.nil_prefix

lemma blockquote?_fits {read : BlockReader} {scope : Scope} {cur : Cursor} {m : Found Block.Body}
    (h : blockquote? read scope cur = .ok (some m)) : m.Fits cur.rest := by
  simp only [blockquote?] at h
  split at h
  next => cases h
  next quote hquote =>
    split at h
    next => cases h
    next =>
      cases h
      exact fits_of_lines (quoteLines_initial _) hquote

/-! ## Lists -/

lemma markerSign?_length_le {cs : Text} {size : Nat} {delimiter : Char} {number : Option Nat}
    (h : markerSign? cs = some (size, delimiter, number)) : size ≤ cs.length := by
  cases cs with
  | nil => cases h
  | cons c cs =>
    simp only [markerSign?] at h
    split at h
    · obtain ⟨rfl, -⟩ := by simpa using h
      simp
    · split at h
      · cases h
      · split at h
        next d after hdrop =>
          split at h
          · obtain ⟨rfl, -⟩ := by simpa using h
            have := congrArg List.length hdrop
            simp only [List.length_drop, List.length_cons] at this ⊢
            omega
          · cases h
        · cases h

/-- Behind the sign of a marker all, one or none of the blanks belong to it. -/
lemma markerPadding_le (blanks : Nat) (atEnd : Bool) :
    (if atEnd then blanks else if 4 < blanks ∨ atEnd then 1 else blanks) ≤ blanks := by
  cases atEnd with
  | true => exact le_rfl
  | false =>
    by_cases hblanks : 4 < blanks
    · simp only [hblanks, Bool.false_eq_true, if_false, true_or, if_true]
      omega
    · simp [hblanks]

/-- A marker and the blanks that belong to it are characters of its line. -/
lemma listMarker?_offset_le {line : Text} {marker : ListMarker}
    (h : listMarker? line = some marker) : marker.contentOffset ≤ line.length := by
  simp only [listMarker?] at h
  split at h
  next => cases h
  next =>
    split at h
    next => cases h
    next size delimiter number hsign =>
      split at h
      next => cases h
      next =>
        cases h
        have hbody := length_dropWhile_le (p := isPad) line
        have hsize := markerSign?_length_le hsign
        set after := (line.dropWhile isPad).drop size with hafter
        have hblanks := length_takeWhile_le (p := (· = ' ')) after
        have hlength : after.length = (line.dropWhile isPad).length - size := by
          rw [hafter, List.length_drop]
        have hpadding := markerPadding_le (after.takeWhile (· = ' ')).length
          ((after.drop (after.takeWhile (· = ' ')).length).isEmpty ||
            (after.drop (after.takeWhile (· = ' ')).length).head? == some '\n')
        dsimp only
        omega

lemma listMarker?_ne_nil {line : Text} {marker : ListMarker} (h : listMarker? line = some marker) :
    line ≠ [] := by
  rintro rfl
  cases h

/-- **Where an item stands.**  It starts in a text where its first line does, which its marker
begins, and it stops behind that line and within the text. -/
structure ItemScan.StandsIn (item : ItemScan) (cs : Text) : Prop where
  line : ∃ line, HasSlice cs item.start line ∧ listMarker? line = some item.marker ∧
    item.start + line.length ≤ item.stop
  stop_le : item.stop ≤ cs.length

lemma ItemScan.StandsIn.append {item : ItemScan} {cs : Text} (h : item.StandsIn cs) (ds : Text) :
    item.StandsIn (cs ++ ds) where
  line := by
    obtain ⟨line, hslice, h⟩ := h.line
    exact ⟨line, hslice.append ds, h⟩
  stop_le := h.stop_le.trans (List.prefix_append cs ds).length_le

lemma ItemScan.StandsIn.stop_pos {item : ItemScan} {cs : Text} (h : item.StandsIn cs) :
    0 < item.stop := by
  obtain ⟨line, -, hmarker, hle⟩ := h.line
  have := List.length_pos_iff.2 (listMarker?_ne_nil hmarker)
  omega

/-- The item that a line begins stands at the end of the text up to that line. -/
lemma ItemScan.ofLine_standsIn {marker : ListMarker} {line : Text}
    (hmarker : listMarker? line = some marker) (before : Text) :
    (ItemScan.ofLine marker before.length line).StandsIn (before ++ line) where
  line := ⟨line, ⟨before, [], by rw [List.append_nil], rfl⟩, hmarker, le_rfl⟩
  stop_le := by rw [List.length_append]; exact le_rfl

/-- An item with one more line stands in the text up to that line. -/
lemma ItemScan.StandsIn.addLine {item : ItemScan} {before : Text} (h : item.StandsIn before)
    (line content : Text) (blank : Bool) :
    (item.addLine blank content (before.length + line.length)).StandsIn (before ++ line) where
  line := by
    obtain ⟨first, hslice, hmarker, hle⟩ := h.line
    exact ⟨first, hslice.append line, hmarker,
      (hle.trans h.stop_le).trans (Nat.le_add_right _ _)⟩
  stop_le := by rw [List.length_append]; exact le_rfl

/-- What a line adds to an item that it goes on with: the text behind the indentation of the item's
content, or behind all white space where the line runs on from a paragraph. -/
def ItemScan.Adds (item : ItemScan) (line content : Text) : Prop :=
  content = stripIndent item.marker.contentIndent line ∨ content = trimStart line

/-- **What a line does to the scan of a list.**  A blank line is skipped.  Any other line goes on with
the item, begins another one, or ends the list. -/
inductive ItemScan.Step (first : ListMarker) (item : ItemScan) (offset : Nat) (blank : Bool)
    (line : Text) (rest : List Text) : ListScan → Prop
  | skips (hline : isBlank line = true) : Step first item offset blank line rest
      (scanItems first item (offset + line.length) true rest)
  | goesOn {behind : Bool} {content : Text} (hline : isBlank line = false)
      (hbehind : behind = true → blank = true) (hcontent : item.Adds line content) :
      Step first item offset blank line rest
        (scanItems first (item.addLine behind content (offset + line.length))
          (offset + line.length) false rest)
  | begins {marker : ListMarker} {scan : ListScan} (hline : isBlank line = false)
      (hmarker : listMarker? line = some marker)
      (hscan : scan = scanItems first (.ofLine marker offset line) (offset + line.length) false
        rest) :
      Step first item offset blank line rest ⟨item :: scan.items, scan.spaced || blank⟩
  | ends (hline : isBlank line = false) : Step first item offset blank line rest ⟨[item], false⟩

section Items

variable {first : ListMarker} {item : ItemScan} {offset : Nat} {blank : Bool}

variable (first item offset blank) in
lemma scanItems_step (line : Text) (rest : List Text) :
    item.Step first offset blank line rest (scanItems first item offset blank (line :: rest)) := by
  simp only [scanItems]
  split
  next hline => exact .skips hline
  next hline =>
    have hline : isBlank line = false := by simpa using hline
    split
    next => exact .goesOn hline id (.inl rfl)
    next =>
      split
      next marker hmarker => exact .begins hline (Option.filter_eq_some_iff.1 hmarker).1 rfl
      next =>
        split
        next => exact .goesOn hline nofun (.inr rfl)
        next => exact .ends hline

/-- A list begins with the marker on its first line. -/
lemma exists_of_listScan? {ls : List Text} {marker : ListMarker} {scan : ListScan}
    (h : listScan? ls = some (marker, scan)) :
    ∃ line rest, ls = line :: rest ∧ listMarker? line = some marker ∧
      scan = scanItems marker (.ofLine marker 0 line) line.length false rest := by
  simp only [listScan?] at h
  split at h
  next => cases h
  next line rest =>
    split at h
    next => cases h
    next hmarker =>
      split at h
      next => cases h
      next =>
        cases h
        exact ⟨line, rest, rfl, hmarker, rfl⟩

/-- Every item of a list stands in the lines that were scanned. -/
lemma scanItems_standsIn {ls : List Text} {before : Text} (hitem : item.StandsIn before) :
    ∀ i ∈ (scanItems first item before.length blank ls).items, i.StandsIn (before ++ ls.flatten) := by
  induction ls generalizing item before blank with
  | nil =>
    intro i hi
    rw [List.mem_singleton.1 hi]
    exact hitem.append _
  | cons line rest ih =>
    rw [List.flatten_cons, ← List.append_assoc]
    have hlast : item.StandsIn (before ++ line ++ rest.flatten) := (hitem.append line).append _
    have hnext {item : ItemScan} {blank : Bool} (hitem : item.StandsIn (before ++ line)) :
        ∀ i ∈ (scanItems first item (before.length + line.length) blank rest).items,
          i.StandsIn (before ++ line ++ rest.flatten) := by
      rw [← List.length_append]
      exact ih hitem
    have hstep := scanItems_step first item before.length blank line rest
    generalize scanItems first item before.length blank (line :: rest) = scan at hstep ⊢
    cases hstep with
    | skips => exact hnext (hitem.append line)
    | goesOn => exact hnext (hitem.addLine line _ _)
    | begins _ hmarker hscan =>
      rw [hscan]
      exact List.forall_mem_cons.2 ⟨hlast, hnext (ItemScan.ofLine_standsIn hmarker before)⟩
    | ends => exact List.forall_mem_singleton.2 hlast

lemma scanItems_ne_nil {ls : List Text} :
    (scanItems first item offset blank ls).items ≠ [] := by
  induction ls generalizing item offset blank with
  | nil => exact List.cons_ne_nil _ _
  | cons line rest ih =>
    have hstep := scanItems_step first item offset blank line rest
    generalize scanItems first item offset blank (line :: rest) = scan at hstep ⊢
    cases hstep with
    | skips => exact ih
    | goesOn => exact ih
    | begins => exact List.cons_ne_nil _ _
    | ends => exact List.cons_ne_nil _ _

end Items

/-- The items of a list stand in its text. -/
lemma listScan?_standsIn {cs : Text} {marker : ListMarker} {scan : ListScan}
    (h : listScan? (lines cs) = some (marker, scan)) : ∀ item ∈ scan.items, item.StandsIn cs := by
  obtain ⟨line, rest, hlines, hmarker, rfl⟩ := exists_of_listScan? h
  have hflatten := lines_flatten cs
  rw [hlines, List.flatten_cons] at hflatten
  rw [← hflatten]
  exact scanItems_standsIn (ItemScan.ofLine_standsIn hmarker [])

/-- A list ends where its last item ends. -/
lemma listScan?_stop {cs : Text} {marker : ListMarker} {scan : ListScan}
    (h : listScan? (lines cs) = some (marker, scan)) :
    ∃ item, scan.items.getLast? = some item ∧ 0 < item.stop ∧ item.stop ≤ cs.length := by
  have hitems := listScan?_standsIn h
  obtain ⟨line, rest, -, -, rfl⟩ := exists_of_listScan? h
  have hlast := hitems _ (List.getLast_mem scanItems_ne_nil)
  exact ⟨_, List.getLast?_eq_getLast_of_ne_nil scanItems_ne_nil, hlast.stop_pos, hlast.stop_le⟩

lemma list?_fits {read : BlockReader} {scope : Scope} {cur : Cursor} {m : Found Block.Body}
    (h : list? read scope cur = .ok (some m)) : m.Fits cur.rest := by
  simp only [list?] at h
  split at h
  next => cases h
  next marker scan hscan =>
    split at h
    next => cases h
    next =>
      cases h
      obtain ⟨item, hitem, hpos, hle⟩ := listScan?_stop hscan
      simp only [hitem, Option.map_some, Option.getD_some]
      exact ⟨hpos, hle⟩

/-! ## Constructs -/

/-- A construct that is recognised from the text alone fits if its finding does. -/
lemma fits_of_ok_map {α β : Type} {f : α → β} {found : Option (Found α)} {m : Found β} {cs : Text}
    (hfits : ∀ x, found = some x → x.Fits cs)
    (h : (.ok (found.map (·.map f)) : Except Fault (Option (Found β))) = .ok (some m)) :
    m.Fits cs := by
  obtain ⟨x, hx, rfl⟩ := Option.map_eq_some_iff.1 (Except.ok.inj h)
  exact (hfits x hx).map

theorem BlockConstruct.recognize_fits {nest : Option BlockReader} {scope : Scope} {cur : Cursor}
    {c : BlockConstruct} {m : Found Block.Body} (hrest : cur.rest ≠ [])
    (h : c.recognize nest scope cur = .ok (some m)) : m.Fits cur.rest := by
  cases c with
  | newline => exact fits_of_ok_map (fun _ => blankLines?_fits) h
  | indentedCode => exact fits_of_ok_map (fun _ => indentedCode?_fits) h
  | fences => exact fits_of_ok_map (fun _ => fencedCode?_fits) h
  | heading name style level => exact fits_of_ok_map (fun _ => heading?_fits) h
  | underlinedHeading => exact fits_of_ok_map (fun _ => underlinedHeading?_fits) h
  | thematicBreak => exact fits_of_ok_map (fun _ => thematicBreak?_fits) h
  | blockquote =>
    cases nest with
    | none => cases h
    | some read => exact blockquote?_fits h
  | list =>
    cases nest with
    | none => cases h
    | some read => exact list?_fits h
  | html => exact fits_of_ok_map (fun _ => htmlBlock?_fits) h
  | definition => exact fits_of_ok_map (fun _ => linkDefinition?_fits) h
  | table => exact fits_of_ok_map (fun _ => table?_fits) h
  | paragraph => exact fits_of_ok_map (fun _ => paragraph?_fits) h
  | text =>
    cases h
    exact (anyText_fits hrest).map
  | directive => exact fits_of_ok_map (fun _ => blockDirective?_fits) h
  | note => exact note?_fits (Except.ok.inj h)
  | division => exact division?_fits (Except.ok.inj h)
  | video => exact video?_fits (Except.ok.inj h)

theorem InlineConstruct.recognize_fits {defs : Definitions} {nest : Option InlineReader}
    {scope : Scope} {cur : Cursor} {c : InlineConstruct} {m : Found Inline.Body}
    (h : c.recognize defs nest scope cur = .ok (some m)) : m.Fits cur.rest := by
  cases c with
  | escape => exact fits_of_ok_map (fun _ => escape?_fits) h
  | autoLink => exact fits_of_ok_map (fun _ => autoLink?_fits) h
  | bareLink =>
    simp only [InlineConstruct.recognize] at h
    split at h
    · cases h
    · exact fits_of_ok_map (fun _ => bareLink?_fits) h
  | tag => exact fits_of_ok_map (fun _ => tag?_fits) h
  | link => exact linkVia_fits (fun _ _ _ => destination?_length) h
  | refLink => exact linkVia_fits (fun _ _ _ => reference?_length) h
  | shortLink => exact linkVia_fits (fun _ _ _ => shortcut?_length) h
  | strong =>
    refine framed_fits Nat.two_pos ?_ h
    intro content hcontent
    rcases Option.or_eq_some_iff.1 hcontent with hpair | ⟨-, hpair⟩
    · exact betweenPairs?_length hpair
    · exact betweenPairs?_length hpair
  | em => exact framed_fits Nat.one_pos (fun _ => betweenMarks?_length) h
  | code => exact fits_of_ok_map (fun _ => codeSpan?_fits) h
  | lineBreak => exact fits_of_ok_map (fun _ => lineBreak?_fits) h
  | del => exact framed_fits Nat.two_pos (fun _ => betweenPairs?_length) h
  | text bare => exact fits_of_ok_map (fun _ => plainText?_fits) h
  | directive => exact fits_of_ok_map (fun _ => inlineDirective?_fits) h
  | angledXref => exact fits_of_ok_map (fun _ => angledXref?_fits) h
  | shortXref => exact fits_of_ok_map (fun _ => shortXref?_fits) h

end Docmark
