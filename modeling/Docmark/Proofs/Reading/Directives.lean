import Mathlib
import Docmark.Proofs.FinalFeed.Reading
import Docmark.Proofs.Reading.Cells
import Docmark.Proofs.Reading.CodeBlocks
import Docmark.Proofs.Reading.Destinations
import Docmark.Rule

/-!
# Include directives are read back

A directive is a title in square brackets and a path in parentheses.  Each of them ends where its
reader stops first: the title at the bracket that closes none of its own, the path at the angle
bracket that closes it or, where it is bare, at white space or a closing parenthesis.  A remark in
quotes behind the path is skipped.  `WritesDirective` says how a directive may be written; whatever
is written so is read as the title and the path it was written with, by the block rule where only
padding follows it on its line and by the inline rule wherever it stands, and its raw text is all of
it.

## Main results

* `bracketedTitle?_of_closes` — where a title ends.
* `directive?_of_writes` — a written directive is recognised if what follows it is.
* `directives_read_back` — what the two rules for directives make of it.
-/

namespace Docmark

/-! ## Writing a directive -/

/-- A title that may stand in a directive: on one line, with square brackets that are balanced and
nested one deep at most. -/
structure IsDirectiveTitle (title : Text) : Prop where
  feed : '\n' ∉ title
  balanced : Balanced '[' ']' title
  nests : NestsTo '[' ']' 1 0 title

/-- A path as it may be written: bare, or in angle brackets. -/
inductive WritesPath : Text → Text → Prop
  | bare {path : Text} : path ≠ [] → (∀ c ∈ path, isSpace c = false ∧ c ≠ ')') →
      path.head? ≠ some '<' → WritesPath path path
  | angled {path : Text} : path ≠ [] → trim path = path → '>' ∉ path → '\n' ∉ path →
      WritesPath ('<' :: (path ++ ['>'])) path

/-- What may stand behind a path: nothing, or a text in quotes behind blanks and tabs. -/
inductive IsRemark : Text → Prop
  | none : IsRemark []
  | quoted {pads text : Text} {quote : Char} : pads ≠ [] → pads.all isPad = true →
      quote = '"' ∨ quote = '\'' → quote ∉ text → '\n' ∉ text →
        IsRemark (pads ++ quote :: (text ++ [quote]))

/-- `text` is the directive `d` as it may be written, with `sign` or nothing behind the keyword. -/
inductive WritesDirective (sign : Char) (text : Text) (d : Directive) : Prop
  | intro (keyword mark written remark : Text) (hkeyword : lowerAscii keyword = "include".toList)
      (hmark : mark = [] ∨ mark = [sign]) (htitle : IsDirectiveTitle d.title)
      (hpath : WritesPath written d.path) (hremark : IsRemark remark)
      (htext : text = "[!".toList ++ keyword ++ mark ++ '[' :: (d.title ++ ']' :: '(' ::
        (written ++ remark ++ [')', ']'])))
      (hraw : d.raw = text)

/-! ## Its parts -/

lemma afterKeyword?_of_lower {keyword : Text} {name : String}
    (h : lowerAscii keyword = name.toList) (rest : Text) :
    afterKeyword? name ("[!".toList ++ keyword ++ rest) = some rest := by
  have hlength : ("[!".toList ++ name.toList).length = ("[!".toList ++ keyword).length := by
    rw [← h, lowerAscii, List.length_append, List.length_append, List.length_map]
  have hlower : lowerAscii ("[!".toList ++ keyword) = "[!".toList ++ name.toList := by
    rw [← h]
    simp [lowerAscii]
  rw [afterKeyword?, hlength, List.take_left, List.drop_left, if_pos hlower]

/-- **Where a title ends.**  It is read up to the bracket that closes none of its own. -/
lemma bracketedTitle?_of_closes {inner : Bool} {title : Text} (hfeed : '\n' ∉ title)
    (h : Closes '[' ']' inner.toNat title) (hnests : NestsTo '[' ']' 1 inner.toNat title)
    (rest : Text) : bracketedTitle? inner (title ++ ']' :: rest) = some (title, rest) := by
  induction title generalizing inner with
  | nil =>
    have hinner : inner = false := Bool.toNat_eq_zero.1 h.depth_eq
    simp [bracketedTitle?, hinner]
  | cons c title ih =>
    obtain ⟨hc, hfeed'⟩ := not_or.1 (mt List.mem_cons.2 hfeed)
    rw [List.cons_append, bracketedTitle?, if_neg (Ne.symm hc)]
    by_cases hopening : c = '['
    · subst hopening
      have hinner : inner = false := by
        have hlt := hnests.depth_lt (by decide)
        exact Bool.toNat_eq_zero.1 (by omega)
      subst hinner
      have hrest : bracketedTitle? true (title ++ ']' :: rest) = some (title, rest) :=
        ih hfeed' (h.of_opening (by decide)) (hnests.of_opening (by decide))
      simp [hrest]
    · by_cases hclosing : c = ']'
      · subst hclosing
        obtain ⟨d, hd, hrest⟩ := h.exists_of_closing (by decide)
        have hinner : inner = true := by
          have hle := inner.toNat_le
          exact Bool.toNat_eq_one.1 (by omega)
        subst hinner
        obtain rfl : d = 0 := by simpa using hd.symm
        have hrest : bracketedTitle? false (title ++ ']' :: rest) = some (title, rest) :=
          ih hfeed' hrest (hnests.of_closing (by decide))
        simp [hrest]
      · have hrest := ih hfeed' (h.of_other hopening hclosing) (hnests.of_other hopening hclosing)
        simp [hopening, hclosing, hrest]

lemma WritesPath.exists_cons {written path : Text} (h : WritesPath written path) :
    ∃ c rest, written = c :: rest ∧ isSpace c = false := by
  cases h with
  | bare hne hpath _ =>
    obtain ⟨c, rest, rfl⟩ := List.exists_cons_of_ne_nil hne
    exact ⟨c, rest, rfl, (hpath c List.mem_cons_self).1⟩
  | angled => exact ⟨'<', _, rfl, by decide⟩

lemma WritesPath.ne_nil {written path : Text} (h : WritesPath written path) : path ≠ [] := by
  cases h with
  | bare hne => exact hne
  | angled hne => exact hne

/-- A path is taken out of its angle brackets. -/
lemma WritesPath.unwrapPath {written path : Text} (h : WritesPath written path) :
    Docmark.unwrapPath written = path := by
  cases h with
  | bare hne hpath hbracket =>
    have htrim : trim written = written := by
      refine trim_of_ends (fun c hc => (hpath c ?_).1) (fun c hc => (hpath c ?_).1)
      · exact List.mem_of_mem_head? hc
      · exact List.mem_of_mem_getLast? hc
    unfold Docmark.unwrapPath
    split
    next inner => exact absurd rfl hbracket
    next => exact htrim
  | angled hne htrim _ _ =>
    rw [Docmark.unwrapPath, List.getLast?_concat, if_pos rfl, List.dropLast_concat, htrim]

/-- A remark is skipped, and where there is none nothing is. -/
lemma IsRemark.skipRemark {remark : Text} (h : IsRemark remark) (rest : Text) :
    Docmark.skipRemark (remark ++ ')' :: rest) = ')' :: rest := by
  cases h with
  | none => simp [Docmark.skipRemark, isPad]
  | @quoted pads text quote hne hpads hquote htext hfeed =>
    obtain ⟨pad, pads', rfl⟩ := List.exists_cons_of_ne_nil hne
    have hall : ∀ c ∈ pad :: pads', isPad c = true := List.all_eq_true.1 hpads
    have hpad : isPad quote = false := by rcases hquote with rfl | rfl <;> decide
    have hremark : pad :: pads' ++ quote :: (text ++ [quote]) ++ ')' :: rest =
        (pad :: pads') ++ quote :: (text ++ quote :: ')' :: rest) := by simp
    have hfirst : ((pad :: pads') ++ quote :: (text ++ quote :: ')' :: rest)).head?.any isPad =
        true := hall pad List.mem_cons_self
    rw [hremark, Docmark.skipRemark, dropWhile_up_to hall hpad]
    dsimp only
    rw [if_pos ⟨hquote, hfirst⟩,
      dropWhile_up_to (ne_and_ne_of_not_mem htext hfeed)
        (by simp : (quote ≠ quote && quote ≠ '\n') = false)]
    dsimp only
    rw [if_pos rfl]

lemma directiveEnd?_of_remark {remark : Text} (h : IsRemark remark) (rest : Text) :
    directiveEnd? (remark ++ ')' :: ']' :: rest) = some rest := by
  rw [directiveEnd?, h.skipRemark]
  simp [isPad]

/-- What follows a path ends it. -/
lemma IsRemark.exists_cons {remark : Text} (h : IsRemark remark) (rest : Text) :
    ∃ c after, remark ++ ')' :: rest = c :: after ∧ (isSpace c = true ∨ c = ')') := by
  cases h with
  | none => exact ⟨')', rest, rfl, .inr rfl⟩
  | quoted hne hpads =>
    obtain ⟨pad, pads, rfl⟩ := List.exists_cons_of_ne_nil hne
    have hpad := List.all_eq_true.1 hpads pad List.mem_cons_self
    refine ⟨pad, _, rfl, .inl ?_⟩
    by_contra hspace
    rw [isPad_of_not_isSpace (by simpa using hspace)] at hpad
    cases hpad

lemma directivePath?_of_writes {tail : Text → Option Text} {written path remark rest left : Text}
    (hpath : WritesPath written path) (hremark : IsRemark remark) (htail : tail rest = some left) :
    directivePath? tail (written ++ remark ++ ')' :: ']' :: rest) = some (written, left) := by
  have hend : (directiveEnd? (remark ++ ')' :: ']' :: rest)).bind tail = some left := by
    rw [directiveEnd?_of_remark hremark, Option.bind_some, htail]
  rw [directivePath?, List.append_assoc]
  cases hpath with
  | bare hne hpath hbracket =>
    obtain ⟨c, after, hafter, hc⟩ := hremark.exists_cons (']' :: rest)
    have hstop : (!isSpace c && decide (c ≠ ')')) = false := by
      rcases hc with hc | rfl
      · simp [hc]
      · simp
    have hrun : ∀ d ∈ written, (!isSpace d && decide (d ≠ ')')) = true := fun d hd => by
      simp [hpath d hd]
    have hangled : angledPath? (written ++ (remark ++ ')' :: ']' :: rest)) = none := by
      unfold angledPath?
      split
      next inner hinner =>
        obtain ⟨d, path', rfl⟩ := List.exists_cons_of_ne_nil hne
        cases hinner
        exact absurd rfl hbracket
      next => rfl
    have hbare : barePath? (written ++ (remark ++ ')' :: ']' :: rest)) =
        some (written, remark ++ ')' :: ']' :: rest) := by
      rw [hafter, barePath?, takeWhile_up_to hrun hstop, if_neg (by simp [hne]), List.drop_left]
    simp only [hangled, hbare, Option.bind_none, Option.bind_some, Option.none_or, hend,
      Option.map_some]
  | angled hne _ hbracket hfeed =>
    have hangled : angledPath? ('<' :: (path ++ ['>']) ++ (remark ++ ')' :: ']' :: rest)) =
        some ('<' :: (path ++ ['>']), remark ++ ')' :: ']' :: rest) := by
      have hsplit : '<' :: (path ++ ['>']) ++ (remark ++ ')' :: ']' :: rest) =
          '<' :: (path ++ '>' :: (remark ++ ')' :: ']' :: rest)) := by simp
      rw [hsplit]
      simp only [angledPath?, takeWhile_up_to (ne_and_ne_of_not_mem hbracket hfeed)
        (by decide : ('>' ≠ '>' && '>' ≠ '\n') = false), List.drop_left]
      rfl
    simp only [hangled, Option.bind_some, hend, Option.map_some, Option.some_or]

/-! ## The whole directive -/

section Whole

variable {sign : Char} {tail : Text → Option Text} {text blanks left : Text} {d : Directive}

lemma dropFront_mark {mark : Text} (hmark : mark = [] ∨ mark = [sign]) (hsign : sign ≠ '[')
    (rest : Text) : dropFront sign (mark ++ '[' :: rest) = '[' :: rest := by
  rcases hmark with rfl | rfl
  · simp [dropFront, hsign.symm]
  · simp [dropFront]

/-- White space is trimmed off behind a directive, and no more. -/
lemma WritesDirective.trimEnd_append (h : WritesDirective sign text d)
    (hblanks : isBlank blanks = true) : trimEnd (text ++ blanks) = text := by
  obtain ⟨keyword, mark, written, remark, -, -, -, -, -, htext, -⟩ := h
  have hlast : text.getLast? = some ']' := by
    have hconcat : text = "[!".toList ++ keyword ++ mark ++ '[' :: (d.title ++ ']' :: '(' ::
        (written ++ remark ++ [')'])) ++ [']'] := by
      rw [htext]
      simp
    rw [hconcat, List.getLast?_concat]
  have hspaces : ∀ c ∈ blanks.reverse, isSpace c = true := fun c hc =>
    List.all_eq_true.1 hblanks c (List.mem_reverse.1 hc)
  rw [trimEnd, dropEndWhile, List.reverse_append, List.dropWhile_append_of_pos hspaces,
    ← dropEndWhile]
  refine dropEndWhile_of_getLast? fun c hc => ?_
  rw [hlast] at hc
  cases hc
  decide

/-- Padding in front of the end of a line is passed over, with the line feeds behind it. -/
lemma lineTail?_append {pads tail : Text} (hpads : pads.all isPad = true)
    (htail : ∀ c ∈ tail.head?, c = '\n') :
    lineTail? (pads ++ tail.takeWhile (· = '\n') ++ tail.dropWhile (· = '\n')) =
      some (tail.dropWhile (· = '\n')) := by
  have hrun : ∀ c ∈ pads, decide (c ≠ '\n') = true := fun c hc =>
    decide_eq_true fun h => not_mem_of_all_isPad hpads (h ▸ hc)
  rw [List.append_assoc, List.takeWhile_append_dropWhile, lineTail?, restOfLine, afterLine,
    List.takeWhile_append_of_pos hrun, List.dropWhile_append_of_pos hrun]
  cases tail with
  | nil => simp [hpads]
  | cons c tail =>
    obtain rfl : c = '\n' := htail c rfl
    simp [hpads]

/-- **A directive is recognised if what has to follow it does.**  White space that is read with it
does not belong to its text. -/
lemma directive?_of_writes (h : WritesDirective sign text d) (hsign : sign ≠ '[')
    (hblanks : isBlank blanks = true) (htail : tail (blanks ++ left) = some left) :
    directive? sign tail (text ++ (blanks ++ left)) = some ⟨(text ++ blanks).length, d⟩ := by
  have hraw := h.trimEnd_append hblanks
  obtain ⟨keyword, mark, written, remark, hkeyword, hmark, htitle, hpath, hremark, htext, hd⟩ := h
  have hsplit : text ++ (blanks ++ left) = "[!".toList ++ keyword ++ (mark ++ '[' ::
      (d.title ++ ']' :: '(' :: (written ++ remark ++ ')' :: ']' :: (blanks ++ left)))) := by
    rw [htext]
    simp
  have hlength : (text ++ (blanks ++ left)).length - left.length = (text ++ blanks).length := by
    rw [← List.append_assoc, List.length_append, Nat.add_sub_cancel]
  have hafter : afterKeyword? "include" (text ++ (blanks ++ left)) = some (mark ++ '[' ::
      (d.title ++ ']' :: '(' :: (written ++ remark ++ ')' :: ']' :: (blanks ++ left)))) := by
    rw [hsplit, afterKeyword?_of_lower hkeyword]
  have hfront : (written ++ remark ++ ')' :: ']' :: (blanks ++ left)).dropWhile isPad =
      written ++ remark ++ ')' :: ']' :: (blanks ++ left) := by
    obtain ⟨c, rest, rfl, hc⟩ := hpath.exists_cons
    exact List.dropWhile_cons_of_neg (by simp [isPad_of_not_isSpace hc])
  have hne : d.path.isEmpty = false := by simpa using hpath.ne_nil
  have htake : (text ++ (blanks ++ left)).take (text ++ blanks).length = text ++ blanks := by
    rw [← List.append_assoc, List.take_left]
  have hcloses : Closes '[' ']' false.toNat d.title := htitle.balanced
  have hnests : NestsTo '[' ']' 1 false.toNat d.title := htitle.nests
  have hvalue : (⟨d.title, d.path, text⟩ : Directive) = d := by rw [← hd]
  simp only [directive?, hafter, dropFront_mark hmark hsign,
    bracketedTitle?_of_closes htitle.feed hcloses hnests, hfront,
    directivePath?_of_writes hpath hremark htail, hpath.unwrapPath, hne, hlength, htake, hraw,
    hvalue, Bool.false_eq_true, if_false]

end Whole

/-- **Include directives are read back.**  The block rule reads a directive on a line of its own,
behind which only blanks and tabs may stand, with that line and the line feeds behind it; the inline
rule reads one wherever it stands, and no more than it.  Both make of it the title and the path that
it was written with, and its own text. -/
theorem directives_read_back :
    (∀ text d, WritesDirective '+' text d → ∀ pads tail : Text, pads.all isPad = true →
      (∀ c ∈ tail.head?, c = '\n') → ∀ nest scope cur, cur.rest = text ++ pads ++ tail →
        BlockRule.attempt nest scope cur (.standard .directive) =
          .ok ⟨some (.leaf ⟨"include_block", ⟨cur.point,
              cur.point.advance (text ++ pads ++ tail.takeWhile (· = '\n'))⟩⟩ (.directive d)),
            (text ++ pads ++ tail.takeWhile (· = '\n')).length⟩) ∧
    ∀ text d, WritesDirective '-' text d → ∀ tail : Text, ∀ defs nest scope cur,
      cur.rest = text ++ tail →
        InlineRule.attempt defs nest scope cur (.standard .directive) =
          .ok ⟨some (.leaf ⟨"include_inline", ⟨cur.point, cur.point.advance text⟩⟩ (.directive d)),
            text.length⟩ := by
  constructor
  · intro text d h pads tail hpads htail nest scope cur hcur
    have hfeeds : isBlank (tail.takeWhile (· = '\n')) = true := by
      refine List.all_eq_true.2 fun c hc => ?_
      have hfeed := List.mem_takeWhile_imp hc
      rw [show c = '\n' by simpa using hfeed]
      decide
    have hblanks : isBlank (pads ++ tail.takeWhile (· = '\n')) = true := by
      rw [isBlank, List.all_append, ← isBlank, ← isBlank, isBlank_of_isPad hpads, hfeeds]
      rfl
    have hline := lineTail?_append hpads htail
    have hrest : cur.rest = (text ++ pads ++ tail.takeWhile (· = '\n')) ++
        tail.dropWhile (· = '\n') := by
      rw [hcur, List.append_assoc (text ++ pads), List.takeWhile_append_dropWhile]
    have hfound := directive?_of_writes h (by decide) hblanks hline
    rw [← List.append_assoc, ← List.append_assoc, ← hrest] at hfound
    simp only [BlockRule.attempt, BlockConstruct.recognize, blockDirective?, hfound, Found.map,
      Option.map_some, BlockConstruct.name, Block.ofBody, Cursor.spanOf,
      Cursor.drop_of_rest_eq hrest]
  · intro text d h tail defs nest scope cur hcur
    have hfound : directive? '-' some (text ++ ([] ++ tail)) = some ⟨(text ++ []).length, d⟩ :=
      directive?_of_writes h (by decide) rfl rfl
    rw [List.nil_append, List.append_nil] at hfound
    simp only [InlineRule.attempt, InlineConstruct.recognize, inlineDirective?, hcur, hfound,
      Found.map, Option.map_some, InlineConstruct.name, Inline.ofBody, Cursor.spanOf,
      Cursor.drop_of_rest_eq hcur]

/-- A directive on a line of its own, with its path in angle brackets and a remark behind it, and
one within a line. -/
theorem directives_read_back_quotes :
    let block := "[!InClude+[a [b] (](<c )d>\t'>)]')]".toList
    let inline := "[!INCLUDE-[[]](\"<c)]".toList
    (WritesDirective '+' block ⟨"a [b] (".toList, "c )d".toList, block⟩ ∧
      BlockRule.attempt none ⟨.block, 0, []⟩ (.ofText (block ++ " \n\nx".toList) .start)
          (.standard .directive) =
        .ok ⟨some (.leaf ⟨"include_block", ⟨.start, ⟨3, 1, 37⟩⟩⟩
          (.directive ⟨"a [b] (".toList, "c )d".toList, block⟩)), 37⟩) ∧
    WritesDirective '-' inline ⟨"[]".toList, "\"<c".toList, inline⟩ ∧
      InlineRule.attempt [] none ⟨.inline, 0, []⟩ (.ofText (inline ++ ")]x".toList) .start)
          (.standard .directive) =
        .ok ⟨some (.leaf ⟨"include_inline", ⟨.start, ⟨1, 21, 20⟩⟩⟩
          (.directive ⟨"[]".toList, "\"<c".toList, inline⟩)), 20⟩ := by
  intro block inline
  have hangled : WritesPath "<c )d>".toList "c )d".toList :=
    @WritesPath.angled "c )d".toList (by decide) (by decide) (by decide) (by decide)
  have hremark : IsRemark "\t'>)]'".toList :=
    @IsRemark.quoted ['\t'] ">)]".toList '\'' (by decide) (by decide) (.inr rfl) (by decide)
      (by decide)
  have hblock : WritesDirective '+' block ⟨"a [b] (".toList, "c )d".toList, block⟩ :=
    .intro "InClude".toList ['+'] _ _ (by decide) (.inr rfl) ⟨by decide, by decide, by decide⟩
      hangled hremark rfl rfl
  have hall : "\"<c".toList.all (fun c => !isSpace c && c ≠ ')') = true := by decide
  have hbare : WritesPath "\"<c".toList "\"<c".toList :=
    .bare (by decide) (fun c hc => by simpa using List.all_eq_true.1 hall c hc) (by decide)
  have hinline : WritesDirective '-' inline ⟨"[]".toList, "\"<c".toList, inline⟩ :=
    .intro "INCLUDE".toList ['-'] _ _ (by decide) (.inr rfl) ⟨by decide, by decide, by decide⟩
      hbare .none rfl rfl
  exact ⟨⟨hblock, directives_read_back.1 _ _ hblock " ".toList "\n\nx".toList (by decide)
      (by simp) none ⟨.block, 0, []⟩ (.ofText (block ++ " \n\nx".toList) .start) rfl⟩,
    hinline, directives_read_back.2 _ _ hinline ")]x".toList [] none ⟨.inline, 0, []⟩
      (.ofText (inline ++ ")]x".toList) .start) rfl⟩

end Docmark
