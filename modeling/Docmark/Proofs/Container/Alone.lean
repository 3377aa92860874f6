import Mathlib
import Docmark.Proofs.Reading.Single
import Docmark.Proofs.Reading.Total

/-!
# Texts that are one container

A text is read as one container if every rule that is tried before the rule of the container
declines, and that rule takes the text to its end (`readBlocks_alone`).  In each dialect it is the
same kind of rules that come before block quotes and lists, and all of them decline a text whose
first line begins a container (`BlockConstruct.recognize_marked`).
-/

namespace Docmark

/-! ## Reading the whole text -/

lemma exists_readBlocks {rules : RuleSet} (hrules : rules.IsStandard) (htext : rules.HasText)
    (scope : Scope) (text : Text) (origin : Point) :
    ∃ bs, readBlocks rules scope text origin = .ok bs := by
  have hfault := scanBlocks_fault hrules htext scope text origin
  rw [readBlocks, BlockReader.ofRun, Run.toExcept_of_fault_none hfault]
  exact ⟨_, rfl⟩

/-- A text that a container takes to its end, once every rule before it has declined, is read as the
one block of this container. -/
lemma readBlocks_alone {rules : RuleSet} {before after : List BlockRule} {c : BlockConstruct}
    (hrules : rules.block = before ++ .standard c :: after) {scope : Scope} {text : Text}
    {origin : Point} {body : Block.Body} (hne : text ≠ []) (hnest : scope.canNest = true)
    (hbefore : ∀ r ∈ before, ∃ moved, r.attempt (some (readBlocks rules)) scope
      (Cursor.ofText text origin) = .ok ⟨none, moved⟩)
    (hc : c.recognize (some (readBlocks rules)) scope (Cursor.ofText text origin) =
      .ok (some ⟨text.length, body⟩)) :
    readBlocks rules scope text origin =
      .ok [.ofBody ⟨c.name, ⟨origin, origin.advance text⟩⟩ body] :=
  readBlocks_single hrules hne (by rwa [if_pos hnest]) (by rwa [if_pos hnest])

/-! ## What is tried before containers -/

/-- The constructs that some dialect tries before block quotes and lists. -/
def BlockConstruct.precedesContainers : BlockConstruct → Bool
  | newline | indentedCode | fences | heading .. | underlinedHeading | thematicBreak => true
  | directive | note | division | video => true
  | _ => false

/-- Every dialect tries block quotes and then lists, behind constructs of those kinds. -/
lemma Flavor.rules_containers (f : Flavor) : ∃ before after : List BlockConstruct,
    f.rules.block = (before ++ .blockquote :: .list :: after).map .standard ∧
      ∀ c ∈ before, c.precedesContainers = true := by
  cases f with
  | markdown =>
    exact ⟨[.newline, .indentedCode, .fences, .heading "heading" .relaxed none, .underlinedHeading,
      .thematicBreak], _, rfl, by decide⟩
  | gfm =>
    exact ⟨[.newline, .indentedCode, .fences, .heading "heading" .strict none, .underlinedHeading,
      .thematicBreak], _, rfl, by decide⟩
  | dfm =>
    exact ⟨[.newline, .indentedCode, .fences, .directive, .heading "heading" .strict none,
      .underlinedHeading, .thematicBreak, .note, .division, .video], _, rfl, by decide⟩

section Marked

variable {mark : Char} {rest : Text}

lemma isPad_of_not_isSpace {c : Char} (h : isSpace c = false) : isPad c = false := by
  simp only [isPad, Bool.or_eq_false_iff, beq_eq_false_iff_ne]
  constructor
  · rintro rfl
    exact absurd h (by decide)
  · rintro rfl
    exact absurd h (by decide)

lemma ne_of_not_isSpace {c d : Char} (h : isSpace c = false) (hd : isSpace d = true) : c ≠ d := by
  rintro rfl
  rw [h] at hd
  cases hd

/-- A text that starts with a character other than a line feed has a first line that starts so. -/
lemma lines_cons_of_ne (h : mark ≠ '\n') (rest : Text) :
    ∃ line ls, lines (mark :: rest) = (mark :: line) :: ls := by
  rw [lines, if_neg h]
  split
  · exact ⟨_, _, rfl⟩
  · exact ⟨_, _, rfl⟩

lemma indentation_of_not_isSpace (h : isSpace mark = false) : indentation (mark :: rest) = 0 := by
  rw [indentation, indentFrom, if_neg (ne_of_not_isSpace h (by decide)),
    if_neg (ne_of_not_isSpace h (by decide))]

lemma restOfLine_of_ne (h : mark ≠ '\n') (rest : Text) :
    restOfLine (mark :: rest) = mark :: restOfLine rest := by
  simp [restOfLine, h]

variable (hmark : isSpace mark = false)

include hmark

lemma blankLines?_marked : blankLines? (mark :: rest) = none := by
  have hpad : isPad mark = false := isPad_of_not_isSpace hmark
  obtain ⟨line, ls, hlines⟩ :=
    lines_cons_of_ne (ne_of_not_isSpace hmark (by decide)) rest
  have hline : isPadLine (mark :: line) = false := by
    cases line with
    | nil => simp [isPadLine, ne_of_not_isSpace hmark (d := '\n') (by decide)]
    | cons d line => simp [isPadLine, hpad]
  simp [blankLines?, hlines, hline, hpad]

lemma indentedCode?_marked : indentedCode? (mark :: rest) = none := by
  obtain ⟨line, ls, hlines⟩ :=
    lines_cons_of_ne (ne_of_not_isSpace hmark (by decide)) rest
  simp only [indentedCode?, hlines, indentation_of_not_isSpace hmark]
  rw [if_pos (Or.inr (by decide))]

lemma fencedCode?_marked (hfence : mark ≠ '\x60' ∧ mark ≠ '~') :
    fencedCode? (mark :: rest) = none := by
  have hline := restOfLine_of_ne (ne_of_not_isSpace hmark (by decide)) rest
  have hblank : mark ≠ ' ' := ne_of_not_isSpace hmark (by decide)
  have hnone : fence? (mark :: rest) = none := by
    simp [fence?, hline, hblank, hfence]
  rw [fencedCode?, hnone]

lemma heading?_marked (hhash : mark ≠ '#') {style : HeadingStyle} {level : Option Nat}
    {scope : Scope} {cur : Cursor} (hcur : cur.rest = mark :: rest) :
    heading? style level scope cur = none := by
  have hline := restOfLine_of_ne (ne_of_not_isSpace hmark (by decide)) rest
  have hblank : mark ≠ ' ' := ne_of_not_isSpace hmark (by decide)
  have hnone : headingLine? style (restOfLine cur.rest) = none := by
    rw [hcur, hline]
    cases style with
    | relaxed => simp [headingLine?, relaxedHeading?, hblank, hhash]
    | strict => simp [headingLine?, strictHeading?, hblank, hhash]
  rw [heading?, hnone]

omit hmark in
lemma afterKeyword?_marked (hbracket : mark.toLower ≠ '[') (keyword : String) :
    afterKeyword? keyword (mark :: rest) = none := by
  have hopening : "[!".toList ++ keyword.toList = '[' :: '!' :: keyword.toList := rfl
  rw [afterKeyword?, hopening, if_neg]
  simp [lowerAscii, hbracket]

omit hmark in
lemma underlinedHeading?_interrupting {scope : Scope} {cur : Cursor}
    (h : interruptsParagraph true (restOfLine cur.rest) = true) :
    underlinedHeading? scope cur = none := by
  simp only [underlinedHeading?, h, true_or, or_true, if_true]
  split
  · rfl
  · split <;> rfl

/-- What is tried before containers declines a text whose first character can begin none of it, as
long as the first line ends a paragraph and is no thematic break. -/
lemma BlockConstruct.recognize_marked (hother : mark.toLower ∉ "#[\x60~".toList)
    {nest : Option BlockReader} {scope : Scope} {cur : Cursor} (hcur : cur.rest = mark :: rest)
    (hinterrupts : interruptsParagraph true (restOfLine cur.rest) = true)
    (hbreak : thematicBreak? cur.rest = none) {c : BlockConstruct}
    (hc : c.precedesContainers = true) : c.recognize nest scope cur = .ok none := by
  have hne {d : Char} (hd : d.toLower ∈ "#[\x60~".toList) : mark ≠ d := by
    rintro rfl
    exact hother hd
  have hbracket : mark.toLower ≠ '[' := fun h => hother (h ▸ by decide)
  have hkeyword (keyword : String) : afterKeyword? keyword cur.rest = none := by
    rw [hcur]
    exact afterKeyword?_marked hbracket keyword
  cases c with
  | newline => simp [recognize, hcur, blankLines?_marked hmark]
  | indentedCode => simp [recognize, hcur, indentedCode?_marked hmark]
  | fences =>
    have hfence : mark ≠ '\x60' ∧ mark ≠ '~' := ⟨hne (by decide), hne (by decide)⟩
    simp [recognize, hcur, fencedCode?_marked hmark hfence]
  | heading name style level =>
    simp [recognize, heading?_marked hmark (hne (d := '#') (by decide)) hcur]
  | underlinedHeading => simp [recognize, underlinedHeading?_interrupting hinterrupts]
  | thematicBreak => simp [recognize, hbreak]
  | directive => simp [recognize, blockDirective?, directive?, hkeyword]
  | note => simp [recognize, note?, hkeyword]
  | division => simp [recognize, division?, hkeyword]
  | video => simp [recognize, video?, hkeyword]
  | _ => cases hc

/-- The rules of what is tried before containers leave such a text to the rules behind them. -/
lemma attempt_marked (hother : mark.toLower ∉ "#[\x60~".toList) {text : Text}
    (htext : text = mark :: rest) (hinterrupts : interruptsParagraph true (restOfLine text) = true)
    (hbreak : thematicBreak? text = none) {before : List BlockConstruct}
    (hbefore : ∀ c ∈ before, c.precedesContainers = true) (nest : Option BlockReader)
    (scope : Scope) (origin : Point) :
    ∀ r ∈ before.map BlockRule.standard, ∃ moved,
      r.attempt nest scope (Cursor.ofText text origin) = .ok ⟨none, moved⟩ := by
  intro r hr
  obtain ⟨c, hc, rfl⟩ := List.mem_map.1 hr
  have hcur : (Cursor.ofText text origin).rest = text := rfl
  have hnone : c.recognize nest scope (Cursor.ofText text origin) = .ok none :=
    BlockConstruct.recognize_marked hmark hother (hcur.trans htext) (hcur ▸ hinterrupts)
      (hcur ▸ hbreak) (hbefore c hc)
  exact ⟨0, by rw [BlockRule.attempt, hnone]⟩

end Marked

end Docmark
