import Mathlib
import Docmark.Proofs.Container.Alone
import Docmark.Proofs.Text.Lines

/-!
# Quoted texts

A mark in front of each line makes a block quote of a text, whatever the text is.  Every line of the
quoted text begins a quote, so no line runs on from the paragraph of another, and none ends the
quote early; taking the marks off again gives the lines of the text.

## Main results

* `quotes_are_transparent` — a quoted text is one block quote of the blocks of the text.
-/

namespace Docmark

/-- What is written in front of a line to quote it. -/
def quoteMark : Text := ['>', ' ']

/-- The text with a quote mark in front of each of its lines. -/
def quoted (text : Text) : Text := (lines text).flatMap (quoteMark ++ ·)

/-! ## Lines with a mark -/

lemma indentation_quoteMark (line : Text) : indentation (quoteMark ++ line) = 0 :=
  indentation_of_not_isSpace (by decide)

lemma startsQuote_quoteMark (line : Text) : startsQuote (quoteMark ++ line) = true := by
  rw [startsQuote, indentation_quoteMark]
  rfl

/-- Taking the mark off undoes writing it, also in front of blanks, tabs and further marks. -/
lemma quotedLine_quoteMark (line : Text) : quotedLine (quoteMark ++ line) = line := by
  rw [quotedLine, if_pos (startsQuote_quoteMark line)]
  rfl

lemma lines_quoted (text : Text) : lines (quoted text) = (lines text).map (quoteMark ++ ·) :=
  AreLines.lines_flatten
    ((lines_areLines text).map fun _ => ⟨quoteMark, by decide, rfl⟩)

/-- A quote takes every line that has a mark. -/
lemma quoteLines_marked (ls : List Text) :
    quoteLines (ls.map (quoteMark ++ ·)) = ls.map (quoteMark ++ ·) := by
  cases ls with
  | nil => rfl
  | cons l ls =>
    rw [List.map_cons, quoteLines, if_pos (startsQuote_quoteMark l), List.takeWhile_eq_self_iff.2]
    intro l' hl'
    obtain ⟨line, -, rfl⟩ := List.mem_map.1 hl'
    rw [startsQuote_quoteMark, Bool.true_or]

/-- Quoting loses nothing: the text inside the quote is the text. -/
lemma quotedText_quoted (text : Text) : quotedText (quoteLines (lines (quoted text))) = text := by
  rw [lines_quoted, quoteLines_marked, quotedText, List.flatMap_map]
  simp only [quotedLine_quoteMark, List.flatMap_id', lines_flatten]

/-! ## The quote -/

section Quote

variable {text : Text}

lemma exists_quoted_cons (h : text ≠ []) : ∃ rest, quoted text = '>' :: rest := by
  obtain ⟨l, ls, hls⟩ := List.exists_cons_of_ne_nil (mt lines_eq_nil.1 h)
  exact ⟨_, by rw [quoted, hls]; rfl⟩

/-- A quoted text is a block quote up to its end, of what the reader makes of the text. -/
lemma blockquote?_quoted (h : text ≠ []) {read : BlockReader} {scope : Scope} {origin : Point}
    {bs : List Block} (hread : read (scope.nested Scope.isBlockQuote) text origin = .ok bs) :
    blockquote? read scope (Cursor.ofText (quoted text) origin) =
      .ok (some ⟨(quoted text).length, .node .blockquote (groupCallouts bs)⟩) := by
  have hquote : quoteLines (lines (quoted text)) = lines (quoted text) := by
    rw [lines_quoted, quoteLines_marked]
  have hinside : quotedText (lines (quoted text)) = text := by
    rw [← hquote]
    exact quotedText_quoted text
  have hrest : (Cursor.ofText (quoted text) origin).rest = quoted text := rfl
  have hpoint : (Cursor.ofText (quoted text) origin).point = origin := rfl
  obtain ⟨rest, hmark⟩ := exists_quoted_cons h
  obtain ⟨l, ls, hls⟩ :=
    List.exists_cons_of_ne_nil (mt lines_eq_nil.1 (hmark ▸ List.cons_ne_nil '>' rest))
  rw [blockquote?, hrest, hpoint, hquote, hls]
  dsimp only
  rw [← hls, hinside, hread, lines_flatten]

lemma thematicBreak?_quoted (h : text ≠ []) : thematicBreak? (quoted text) = none := by
  obtain ⟨rest, hrest⟩ := exists_quoted_cons h
  have hline : restOfLine ('>' :: rest) = '>' :: restOfLine rest := restOfLine_of_ne (by decide) rest
  simp [thematicBreak?, hrest, hline]

lemma interruptsParagraph_quoted (h : text ≠ []) :
    interruptsParagraph true (restOfLine (quoted text)) = true := by
  obtain ⟨rest, hrest⟩ := exists_quoted_cons h
  have hline : restOfLine ('>' :: rest) = '>' :: restOfLine rest := restOfLine_of_ne (by decide) rest
  have hquote : startsQuote ('>' :: restOfLine rest) = true := by
    rw [startsQuote, indentation_of_not_isSpace (by decide)]
    rfl
  simp [interruptsParagraph, hrest, hline, hquote]

/-- **Block quotes are transparent.**  A text with a quote mark in front of each line is read, in
each dialect and wherever one more level may be opened, as one block quote over the whole of it.
What the quote holds are the blocks of the text, read from the same place in the scope of a quote,
with callouts grouped. -/
theorem quotes_are_transparent (f : Flavor) {scope : Scope} (hnest : scope.canNest = true)
    (h : text ≠ []) (origin : Point) :
    ∃ bs, readBlocks f.rules (scope.nested Scope.isBlockQuote) text origin = .ok bs ∧
      readBlocks f.rules scope (quoted text) origin =
        .ok [.node ⟨BlockConstruct.blockquote.name, ⟨origin, origin.advance (quoted text)⟩⟩
          .blockquote (groupCallouts bs)] := by
  obtain ⟨bs, hbs⟩ := exists_readBlocks f.rules_isStandard f.rules_hasText
    (scope.nested Scope.isBlockQuote) text origin
  refine ⟨bs, hbs, ?_⟩
  obtain ⟨before, after, hrules, hbefore⟩ := f.rules_containers
  rw [List.map_append, List.map_cons] at hrules
  obtain ⟨rest, hrest⟩ := exists_quoted_cons h
  have hne : quoted text ≠ [] := by simp [hrest]
  have hdeclines := attempt_marked (by decide) (by decide) hrest (interruptsParagraph_quoted h)
    (thematicBreak?_quoted h) hbefore (some (readBlocks f.rules)) scope origin
  exact readBlocks_alone hrules hne hnest hdeclines (blockquote?_quoted h hbs)

/-- An underlined title, an open fence and a blank line, in the last level that may be opened. -/
theorem quotes_are_transparent_open_fence :
    (⟨.block, 99, []⟩ : Scope).canNest = true ∧ "a\n---\n\n  ~~~".toList ≠ [] ∧
    ∃ bs, readBlocks Flavor.dfm.rules (Scope.nested ⟨.block, 99, []⟩ Scope.isBlockQuote)
        "a\n---\n\n  ~~~".toList Point.start = .ok bs ∧
      readBlocks Flavor.dfm.rules ⟨.block, 99, []⟩ (quoted "a\n---\n\n  ~~~".toList) Point.start =
        .ok [.node ⟨BlockConstruct.blockquote.name,
          ⟨Point.start, Point.start.advance (quoted "a\n---\n\n  ~~~".toList)⟩⟩
          .blockquote (groupCallouts bs)] := by
  have hnest : (⟨.block, 99, []⟩ : Scope).canNest = true := by decide
  have h : "a\n---\n\n  ~~~".toList ≠ [] := by decide
  exact ⟨hnest, h, quotes_are_transparent .dfm hnest h Point.start⟩

end Quote

end Docmark
