import Mathlib
import Docmark.Construct.Table
import Docmark.Proofs.Container.Alone
import Docmark.Proofs.Text.Lines

/-!
# Lines with a line feed at their end

What the last line of a text is taken for does not depend on the line feed that may end it.  The
tests on a line look at its white space in front, at marks and at words, and a line feed at its end
adds to none of them; what is cut out of a line keeps the line feed at its end, or is trimmed.
-/

namespace Docmark

/-! ## Runs at the start of a text -/

section Runs

variable {p : Char → Bool} (hp : p '\n' = false) (cs : Text)

include hp

/-- A run of characters other than line feeds ends in front of a line feed. -/
lemma takeWhile_feed : (cs ++ ['\n']).takeWhile p = cs.takeWhile p := by
  induction cs with
  | nil => simp [hp]
  | cons c cs ih => by_cases hc : p c <;> simp [hc, ih]

lemma dropWhile_feed : (cs ++ ['\n']).dropWhile p = cs.dropWhile p ++ ['\n'] := by
  induction cs with
  | nil => simp [hp]
  | cons c cs ih => by_cases hc : p c <;> simp [hc, ih]

end Runs

/-- What is gone in front of the rest of a text is as long as before. -/
lemma length_feed_sub_feed (cs left : Text) :
    (cs ++ ['\n']).length - (left ++ ['\n']).length = cs.length - left.length := by
  simp

lemma drop_feed {cs : Text} {n : Nat} (h : n ≤ cs.length) :
    (cs ++ ['\n']).drop n = cs.drop n ++ ['\n'] :=
  List.drop_append_of_le_length h

lemma drop_length_feed (p : Char → Bool) (cs : Text) :
    (cs ++ ['\n']).drop (cs.takeWhile p).length = cs.drop (cs.takeWhile p).length ++ ['\n'] :=
  drop_feed (List.takeWhile_prefix p).length_le

lemma restOfLine_feed (cs : Text) : restOfLine (cs ++ ['\n']) = restOfLine cs :=
  takeWhile_feed (by decide) cs

lemma afterLine_feed (cs : Text) : afterLine (cs ++ ['\n']) = afterLine cs ++ ['\n'] :=
  dropWhile_feed (by decide) cs

/-- The line feeds at the start of a text are one more if there is nothing else. -/
lemma leadingNewlines_feed (cs : Text) :
    leadingNewlines cs = cs.length ∧ leadingNewlines (cs ++ ['\n']) = cs.length + 1 ∨
      leadingNewlines cs < cs.length ∧ leadingNewlines (cs ++ ['\n']) = leadingNewlines cs := by
  induction cs with
  | nil => exact .inl ⟨rfl, rfl⟩
  | cons c cs ih =>
    by_cases hc : c = '\n'
    · simpa [leadingNewlines, hc] using ih
    · simp [leadingNewlines, hc]

/-- A pattern without a line feed that a text starts with it also starts with in front of a line
feed, and no other. -/
lemma isPrefixOf_feed {pattern : Text} (h : '\n' ∉ pattern) (cs : Text) :
    pattern.isPrefixOf (cs ++ ['\n']) = pattern.isPrefixOf cs := by
  induction pattern generalizing cs with
  | nil => simp
  | cons d pattern ih =>
    obtain ⟨hd, hrest⟩ := not_or.1 (mt List.mem_cons.2 h)
    cases cs with
    | nil => simpa [List.isPrefixOf] using fun hfeed => absurd hfeed.symm hd
    | cons c cs => simp [List.isPrefixOf, ih hrest]

/-! ## White space -/

@[simp] lemma isSpace_feed : isSpace '\n' = true := by decide

lemma isBlank_feed (line : Text) : isBlank (line ++ ['\n']) = isBlank line := by
  simp [isBlank]

@[simp] lemma isBlank_singleton_feed : isBlank ['\n'] = true := by decide

lemma indentation_feed (line : Text) : indentation (line ++ ['\n']) = indentation line := by
  have hfrom (w : Nat) : indentFrom w (line ++ ['\n']) = indentFrom w line := by
    induction line generalizing w with
    | nil => simp [indentFrom]
    | cons c line ih => simp [indentFrom, ih]
  exact hfrom 0

lemma stripIndent_feed (width : Nat) (line : Text) :
    stripIndent width (line ++ ['\n']) = stripIndent width line ++ ['\n'] := by
  have hfrom (removed : Nat) :
      stripIndentFrom width removed (line ++ ['\n']) =
        stripIndentFrom width removed line ++ ['\n'] := by
    induction line generalizing removed with
    | nil => simp [stripIndentFrom]
    | cons c line ih =>
      simp only [List.cons_append, stripIndentFrom, ih]
      split_ifs <;> rfl
  exact hfrom 0

lemma dropEndWhile_feed {p : Char → Bool} (hp : p '\n' = true) (cs : Text) :
    dropEndWhile p (cs ++ ['\n']) = dropEndWhile p cs := by
  simp [dropEndWhile, hp]

lemma trimEnd_feed (cs : Text) : trimEnd (cs ++ ['\n']) = trimEnd cs :=
  dropEndWhile_feed (by decide) cs

lemma trimStart_feed_of_blank {line : Text} (h : isBlank line = true) :
    trimStart (line ++ ['\n']) = trimStart line := by
  have hall {cs : Text} (hcs : isBlank cs = true) : trimStart cs = [] :=
    List.dropWhile_eq_nil_iff.2 (List.all_eq_true.1 hcs)
  rw [hall h, hall (isBlank_feed line ▸ h)]

lemma trimStart_feed {line : Text} (h : isBlank line = false) :
    trimStart (line ++ ['\n']) = trimStart line ++ ['\n'] := by
  rw [trimStart, List.dropWhile_append, if_neg]
  · rfl
  · rw [List.isEmpty_iff, List.dropWhile_eq_nil_iff, ← List.all_eq_true]
    exact ne_true_of_eq_false h

/-- Trimming at the start leaves the first character that is no white space, whatever ends the
line. -/
lemma trimStart_feed_cases (line : Text) :
    trimStart (line ++ ['\n']) = trimStart line ∨
      trimStart (line ++ ['\n']) = trimStart line ++ ['\n'] ∧ trimStart line ≠ [] := by
  cases h : isBlank line with
  | true => exact .inl (trimStart_feed_of_blank h)
  | false =>
    refine .inr ⟨trimStart_feed h, fun hnil => ?_⟩
    have hall := List.all_eq_true.2 (List.dropWhile_eq_nil_iff.1 hnil)
    exact absurd hall (ne_true_of_eq_false h)

lemma head?_trimStart_feed (line : Text) :
    (trimStart (line ++ ['\n'])).head? = (trimStart line).head? := by
  rcases trimStart_feed_cases line with h | ⟨h, hne⟩
  · rw [h]
  · rw [h, List.head?_append_of_ne_nil _ hne]

lemma trim_feed (cs : Text) : trim (cs ++ ['\n']) = trim cs := by
  rcases trimStart_feed_cases cs with h | ⟨h, _⟩
  · rw [trim, h, ← trim]
  · rw [trim, h, trimEnd_feed, ← trim]

/-! ## What a line can begin -/

lemma startsHeading_feed (line : Text) : startsHeading (line ++ ['\n']) = startsHeading line := by
  have hblank : (decide ('\n' = ' ')) = false := by decide
  have hhash : (decide ('\n' = '#')) = false := by decide
  simp only [startsHeading, dropWhile_feed (p := (· = ' ')) hblank, length_feed_sub_feed,
    takeWhile_feed (p := (· = '#')) hhash, drop_length_feed]
  congr 1
  cases (line.dropWhile (· = ' ')).drop ((line.dropWhile (· = ' ')).takeWhile (· = '#')).length with
  | nil => rfl
  | cons => rfl

lemma isThematicBreak_feed (line : Text) :
    isThematicBreak (line ++ ['\n']) = isThematicBreak line := by
  simp [isThematicBreak, indentation_feed]

lemma startsFence_feed (line : Text) : startsFence (line ++ ['\n']) = startsFence line := by
  rw [startsFence, startsFence, indentation_feed]
  rcases trimStart_feed_cases line with h | ⟨h, _⟩
  · rw [h]
  · rw [h, isPrefixOf_feed (by decide), isPrefixOf_feed (by decide)]

lemma startsQuote_feed (line : Text) : startsQuote (line ++ ['\n']) = startsQuote line := by
  rw [startsQuote, startsQuote, indentation_feed, head?_trimStart_feed]

lemma markerSign?_feed_end (cs : Text) : markerSign? (cs ++ ['\n']) = markerSign? cs := by
  cases cs with
  | nil => rfl
  | cons c cs =>
    simp only [List.cons_append, markerSign?]
    rw [← List.cons_append, takeWhile_feed (by decide), drop_length_feed]
    cases (c :: cs).drop ((c :: cs).takeWhile Char.isDigit).length with
    | nil => simp
    | cons => rfl

/-- The marker of a list item is the same: a line feed and the end of the text both end its line. -/
lemma listMarker?_feed {line : Text} (hne : line ≠ []) :
    listMarker? (line ++ ['\n']) = listMarker? line := by
  have hpad : isPad '\n' = false := by decide
  have hblank : (decide ('\n' = ' ')) = false := by decide
  simp only [listMarker?, indentation_feed, List.head?_append_of_ne_nil _ hne,
    dropWhile_feed hpad, length_feed_sub_feed, markerSign?_feed_end]
  split
  · rfl
  · cases hsign : markerSign? (line.dropWhile isPad) with
    | none => rfl
    | some sign =>
      obtain ⟨size, delimiter, number⟩ := sign
      dsimp only
      rw [drop_feed (markerSign?_length_le hsign), takeWhile_feed (p := (· = ' ')) hblank,
        drop_length_feed]
      generalize ((line.dropWhile isPad).drop size).drop _ = tail
      have hend : ((tail ++ ['\n']).isEmpty || (tail ++ ['\n']).head? == some '\n') =
          (tail.isEmpty || tail.head? == some '\n') := by
        cases tail <;> simp
      simp only [hend]

lemma interruptsParagraph_feed {line : Text} (hne : line ≠ []) (lists : Bool) :
    interruptsParagraph lists (line ++ ['\n']) = interruptsParagraph lists line := by
  simp only [interruptsParagraph, startsHeading_feed, isThematicBreak_feed, startsFence_feed,
    startsQuote_feed, listMarker?_feed hne]

lemma Fence.closedBy_feed (f : Fence) (line : Text) :
    f.closedBy (line ++ ['\n']) = f.closedBy line := by
  rw [Fence.closedBy, Fence.closedBy, trim_feed, indentation_feed]

/-! ## What is cut out of a line -/

lemma stripQuoteMark_feed (line : Text) :
    stripQuoteMark (line ++ ['\n']) = stripQuoteMark line ++ ['\n'] := by
  rw [stripQuoteMark, stripQuoteMark, dropWhile_feed (p := (· = ' ')) (by decide)]
  generalize line.dropWhile (· = ' ') = body
  -- The mark goes first, then one blank or tab.
  cases body with
  | nil => rfl
  | cons c rest =>
    by_cases hc : c = '>'
    · cases rest with
      | nil => simp [hc]
      | cons d rest =>
        by_cases hd : d = ' '
        · simp [hc, hd]
        · by_cases ht : d = '\t' <;> simp [hc, hd, ht]
    · by_cases hd : c = ' '
      · simp [hd]
      · by_cases ht : c = '\t' <;> simp [hc, hd, ht]

lemma quotedLine_feed {line : Text} (h : startsQuote line = true ∨ isBlank line = false) :
    quotedLine (line ++ ['\n']) = quotedLine line ++ ['\n'] := by
  rw [quotedLine, quotedLine, startsQuote_feed]
  split
  next => exact stripQuoteMark_feed line
  next hquote => exact trimStart_feed (h.resolve_left hquote)

lemma splitCells_feed (line : Text) : splitCells (line ++ ['\n']) = splitCells line := by
  rw [splitCells, splitCells, stripOuterBars, stripOuterBars, trim_feed]

lemma isDashLine_feed {line : Text} (h : '\n' ∉ line) :
    isDashLine (line ++ ['\n']) = isDashLine line := by
  have hlast : line.getLast? ≠ some '\n' := fun hlast => h (List.mem_of_getLast? hlast)
  simp only [isDashLine, List.getLast?_concat, if_true, List.dropLast_concat, if_neg hlast]

end Docmark
