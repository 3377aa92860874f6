import Mathlib
import Docmark.Proofs.Extent.Rule

/-!
# The slices of constructs

A construct cuts its parts out of its input by offsets that it has counted: the text of a label, what
is between marks, the content of a heading, the lines of a container.  To cut a text is to take
characters of it or to drop some, which gives something for every offset.  No construct makes use of
that.  Each part stands in the input where its offset says, and the marks behind it stand there, too.

## Main results

* `slicesStand` — the parts of all constructs stand in their input.
-/

namespace Docmark

/-- **What constructs cut out of a text stands in it.** -/
structure SlicesStand (cs : Text) : Prop where
  /-- The text of a label, in front of its closing bracket. -/
  label : ∀ l, label? cs = some l → HasSlice cs l.start l.text ∧ l.length ≤ cs.length
  /-- What is left behind the destination of a link. -/
  destination : ∀ d, destination? cs = some d → d.length ≤ cs.length
  /-- The content between two pairs of marks. -/
  pairs : ∀ mark content, betweenPairs? mark cs = some content →
    HasSlice cs 2 content ∧ content.length + 2 * 2 ≤ cs.length
  /-- The content between two marks. -/
  marks : ∀ content, betweenMarks? cs = some content →
    HasSlice cs 1 content ∧ content.length + 2 * 1 ≤ cs.length
  /-- The code between two runs of backticks, counted with the run behind it. -/
  code : ∀ run n, run = (cs.takeWhile (· = '\x60')).length →
    throughTicks? run 0 (cs.drop run) = some n → run ≤ n ∧ run + n ≤ cs.length
  /-- The content of a heading, on its line. -/
  heading : ∀ style h, headingLine? style (restOfLine cs) = some h →
    HasSlice (restOfLine cs) h.start h.content
  /-- The lines of a paragraph. -/
  paragraph : ∀ lists, (paragraphLines lists (lines cs)).flatten <+: cs
  /-- The lines of a quote. -/
  quote : (quoteLines (lines cs)).flatten <+: cs
  /-- The content of an item on the line of its marker. -/
  marker : ∀ marker, listMarker? cs = some marker → marker.contentOffset ≤ cs.length
  /-- The items of a list. -/
  item : ∀ marker scan, listScan? (lines cs) = some (marker, scan) →
    ∀ item ∈ scan.items, item.StandsIn cs

theorem slicesStand (cs : Text) : SlicesStand cs where
  label _ h := ⟨label?_hasSlice h, label?_length_le h⟩
  destination _ h := destination?_length h
  pairs _ _ h := ⟨betweenPairs?_hasSlice h, betweenPairs?_length h⟩
  marks _ h := ⟨betweenMarks?_hasSlice h, betweenMarks?_length h⟩
  code := by
    rintro run n rfl h
    have hle := throughTicks?_le h
    have hrun := length_takeWhile_le (p := (· = '\x60')) cs
    rw [List.length_drop] at hle
    exact ⟨by simpa using le_throughTicks? h, by omega⟩
  heading _ _ h := headingLine?_hasSlice h
  paragraph _ := flatten_initial (paragraphLines_initial _ _)
  quote := flatten_initial (quoteLines_initial _)
  marker _ h := listMarker?_offset_le h
  item _ _ h := listScan?_standsIn h

end Docmark
