import Mathlib
import Docmark.Proofs.Reading.Definitions
import Docmark.Proofs.Text.Lines

/-!
# The texts of pending blocks

A construct with inline content leaves its text to the second pass, together with the place from
which it is to be read.  The text is not always a piece of the input: a heading's is, the title of
an underlined heading is moved to the start of its line, the lines of a paragraph lose the white
space in front of them, and the cells of a table lose the backslashes in front of bars and are all
read from the start of the table.  `Pending.IsFrom` lists the four ways, and
`BlockConstruct.recognize_pending` says that there are no others.
-/

namespace Docmark

/-! ## Trimming and joining -/

lemma dropEndWhile_initial (p : Char → Bool) (cs : Text) : dropEndWhile p cs <+: cs := by
  rw [dropEndWhile, ← List.reverse_suffix, List.reverse_reverse]
  exact List.dropWhile_suffix p

lemma trim_piece (cs : Text) : trim cs <:+: cs := by
  have hstart : trimStart cs <:+ cs := List.dropWhile_suffix isSpace
  exact (dropEndWhile_initial isSpace (trimStart cs)).isInfix.trans hstart.isInfix

/-- The text of a paragraph is part of its lines. -/
lemma joinParagraph_sublist (ls : List Text) : (joinParagraph ls).Sublist ls.flatten := by
  have hlines : (ls.flatMap trimStart).Sublist ls.flatten := by
    induction ls with
    | nil => exact List.Sublist.slnil
    | cons l ls ih =>
      have hl : trimStart l <:+ l := List.dropWhile_suffix isSpace
      exact hl.sublist.append ih
  exact (dropEndWhile_initial isSpace _).sublist.trans hlines

/-- Blank lines hold no paragraph. -/
lemma joinParagraph_of_blank {paragraph : List Text} (h : paragraph.all isBlank = true) :
    joinParagraph paragraph = [] := by
  have hflat : paragraph.flatMap trimStart = [] := by
    refine List.flatMap_eq_nil_iff.2 fun line hline => ?_
    have hblank : isBlank line = true := List.all_eq_true.1 h line hline
    exact List.dropWhile_eq_nil_iff.2 (List.all_eq_true.1 hblank)
  rw [joinParagraph, hflat]
  rfl

/-! ## Cells -/

/-- Splitting a line yields at least one cell. -/
lemma splitBars_ne_nil (cell cs : Text) : splitBars cell cs ≠ [] := by
  fun_induction splitBars cell cs with
  | case1 => exact List.cons_ne_nil _ _
  | case2 _ _ ih => exact ih
  | case3 => exact List.cons_ne_nil _ _
  | case4 _ _ _ _ _ ih => exact ih

/-- A cell is part of its line. -/
lemma splitBars_sublist (cell cs : Text) :
    ∀ t ∈ splitBars cell cs, t.Sublist (cell.reverse ++ cs) := by
  fun_induction splitBars cell cs with
  | case1 cell =>
    intro t ht
    rw [List.mem_singleton.1 ht, List.append_nil]
    exact (trim_piece _).sublist
  | case2 cell cs ih =>
    intro t ht
    refine (ih t ht).trans ?_
    rw [List.reverse_cons, List.append_assoc]
    exact (List.Sublist.refl _).append (List.sublist_cons_self '\\' ('|' :: cs))
  | case3 cell cs _ ih =>
    intro t ht
    rcases List.mem_cons.1 ht with rfl | ht
    · exact (trim_piece _).sublist.trans (List.sublist_append_left _ _)
    · exact (ih t ht).trans ((List.sublist_cons_self _ cs).trans (List.sublist_append_right _ _))
  | case4 cell cs c _ _ ih =>
    intro t ht
    have hcell := ih t ht
    rwa [List.reverse_cons, List.append_assoc] at hcell

lemma stripOuterBars_piece (line : Text) : stripOuterBars line <:+: line := by
  unfold stripOuterBars
  extract_lets body
  have hbody : body <:+: line := by
    unfold body
    split
    next rest hrest =>
      have hsuffix : rest <:+ trim line := ⟨['|'], hrest.symm⟩
      exact hsuffix.isInfix.trans (trim_piece line)
    next => exact trim_piece line
  split
  next rest hrest =>
    split
    next => exact hbody
    next =>
      have hinitial : rest.reverse <+: body := by
        rw [← List.reverse_suffix, List.reverse_reverse, hrest]
        exact List.suffix_cons _ _
      exact hinitial.isInfix.trans hbody
  next => exact hbody

lemma splitCells_sublist (line : Text) : ∀ t ∈ splitCells line, t.Sublist line := fun t ht =>
  (splitBars_sublist [] _ t ht).trans (stripOuterBars_piece line).sublist

/-! ## Where the texts come from -/

/-- Where a pending block of a construct has its texts from, when the construct has taken `taken`
from `p` on. -/
inductive Pending.IsFrom (p : Point) (taken : Text) : BlockConstruct → Pending → Prop
  /-- A piece of the first line, read from its own place. -/
  | heading {name : String} {style : HeadingStyle} {level : Option Nat} {depth : Nat}
      {before content : Text} {scope : Scope} (hline : before ++ content <+: restOfLine taken) :
      IsFrom p taken (.heading name style level)
        ⟨.heading depth, content, p.advance before, scope⟩
  /-- The first line, trimmed. -/
  | title {depth : Nat} {line : Text} {scope : Scope} (hline : line = restOfLine taken) :
      IsFrom p taken .underlinedHeading ⟨.heading depth, trim line, p, scope⟩
  /-- Lines without the white space in front of each and at their end. -/
  | paragraph {c : BlockConstruct} {form : Pending.Form} {ls : List Text} {scope : Scope}
      (hform : form = .paragraph ∨ form = .text) (hls : ls <+: lines taken)
      (hblank : (∀ l ∈ ls, isBlank l = false) ∨ joinParagraph ls = []) :
      IsFrom p taken c ⟨form, joinParagraph ls, p, scope⟩
  /-- Cells of lines, and those that are filled up. -/
  | table {align : List (Option Alignment)} {header : List Text} {rows : List (List Text)}
      {source : Text} {scope : Scope}
      (hcells : ∀ t ∈ header ++ rows.flatten,
        t = [] ∨ ∃ line, line <:+: taken ∧ t ∈ splitCells line) :
      IsFrom p taken .table ⟨.table align header rows, source, p, scope⟩

lemma restOfLine_initial (cs : Text) : restOfLine cs <+: cs := List.takeWhile_prefix _

/-- The texts of a pending block fit into what its construct has taken. -/
lemma Pending.IsFrom.fits {q : Point} {taken : Text} {c : BlockConstruct} {p : Pending}
    (h : p.IsFrom q taken c) : ∀ text ∈ p.texts, q.offset ≤ p.origin.offset ∧
      p.origin.offset + byteLength text ≤ q.offset + byteLength taken := by
  have hread {text : Text} (hsublist : text.Sublist taken) : q.offset ≤ q.offset ∧
      q.offset + byteLength text ≤ q.offset + byteLength taken :=
    ⟨le_rfl, Nat.add_le_add_left (byteLength_le_of_sublist hsublist) _⟩
  cases h with
  | heading hline =>
    have hbytes := byteLength_le_of_sublist (hline.trans (restOfLine_initial taken)).sublist
    rw [byteLength_append] at hbytes
    intro text htext
    rw [List.mem_singleton.1 htext]
    simp only [Point.advance_offset]
    omega
  | title hline =>
    intro text htext
    rw [List.mem_singleton.1 htext, hline]
    exact hread ((trim_piece _).sublist.trans (restOfLine_initial taken).sublist)
  | paragraph hform hls =>
    intro text htext
    rcases hform with rfl | rfl <;>
    · rw [List.mem_singleton.1 htext]
      exact hread ((joinParagraph_sublist _).trans (flatten_initial hls).sublist)
  | table hcells =>
    intro text htext
    rcases hcells text htext with rfl | ⟨line, hline, hcell⟩
    · exact hread (List.nil_sublist _)
    · exact hread ((splitCells_sublist line text hcell).trans hline.sublist)

/-! ### What a block takes -/

/-- A block that takes the first line has it for its own first line. -/
lemma restOfLine_take {cs : Text} {n : Nat} (h : (restOfLine cs).length ≤ n) :
    restOfLine (cs.take n) = restOfLine cs := by
  rw [restOfLine, ← List.take_takeWhile]
  exact List.take_of_length_le h

/-- Lines that a block takes are its own first lines. -/
lemma lines_initial_take {cs : Text} {ls : List Text} {n : Nat} (h : ls <+: lines cs)
    (hn : ls.flatten.length ≤ n) : ls <+: lines (cs.take n) := by
  obtain ⟨ls', hls'⟩ := h
  obtain ⟨more, hmore⟩ := List.prefix_take_iff.2 ⟨flatten_initial ⟨ls', hls'⟩, hn⟩
  have hlines : AreLines (ls ++ ls') := hls' ▸ lines_areLines cs
  rw [← hmore]
  by_cases hnil : ls' = []
  · have hcs : cs = ls.flatten := by rw [← lines_flatten cs, ← hls', hnil, List.append_nil]
    have hlength := congrArg List.length hmore
    rw [List.length_append, List.length_take, hcs] at hlength
    have hmorenil : more = [] := List.length_eq_zero_iff.1 (by omega)
    rw [hnil, List.append_nil] at hlines
    rw [hmorenil, List.append_nil, hlines.lines_flatten]
  · rw [hlines.lines_append hnil]
    exact List.prefix_append _ _

section Recognize

variable {scope : Scope} {cur : Cursor} {m : Found Block.Leaf} {p : Pending}

lemma heading?_isFrom {name : String} {style : HeadingStyle} {level : Option Nat}
    (h : heading? style level scope cur = some m) (hp : m.value = .pending p) :
    p.IsFrom cur.point (cur.rest.take m.length) (.heading name style level) := by
  obtain ⟨hd, hhd, rfl⟩ := exists_of_heading? h
  cases hp
  obtain ⟨before, after, hline, hstart⟩ := headingLine?_hasSlice hhd
  have hrest : cur.rest = before ++ hd.content ++ (after ++ afterLine cur.rest) := by
    rw [← List.append_assoc, ← hline, restOfLine_append_afterLine]
  rw [pointAt_of_split hrest hstart]
  refine .heading ?_
  rw [restOfLine_take (Nat.le_add_right _ _)]
  exact ⟨after, hline.symm⟩

lemma underlinedHeading?_isFrom (h : underlinedHeading? scope cur = some m)
    (hp : m.value = .pending p) :
    p.IsFrom cur.point (cur.rest.take m.length) .underlinedHeading := by
  obtain ⟨c, below, depth, -, -, rfl⟩ := exists_of_underlinedHeading? h
  cases hp
  refine .title (restOfLine_take ?_).symm
  simp only
  omega

/-- A blank line makes a paragraph by itself or none. -/
lemma not_isBlank_of_mem_paragraphLines (lists : Bool) (ls : List Text) :
    (∀ l ∈ paragraphLines lists ls, isBlank l = false) ∨
      joinParagraph (paragraphLines lists ls) = [] := by
  cases ls with
  | nil => exact .inl (by simp [paragraphLines])
  | cons line rest =>
    simp only [paragraphLines]
    split
    next hblank => exact .inr (joinParagraph_of_blank (by simpa using hblank))
    next hblank =>
      refine .inl (List.forall_mem_cons.2 ⟨by simpa using hblank, fun l hl => ?_⟩)
      have hend := List.mem_takeWhile_imp hl
      simp only [Bool.not_eq_true', Bool.or_eq_false_iff] at hend
      exact hend.1

lemma paragraphBlock_isFrom {c : BlockConstruct} {form : Pending.Form} {lists : Bool}
    (hform : form = .paragraph ∨ form = .text)
    (hp : (paragraphBlock form (paragraphLines lists (lines cur.rest)) scope cur).value =
      .pending p) :
    p.IsFrom cur.point (cur.rest.take
      (paragraphBlock form (paragraphLines lists (lines cur.rest)) scope cur).length) c := by
  cases hp
  exact .paragraph hform
    (lines_initial_take (paragraphLines_initial lists (lines cur.rest)) (Nat.le_add_right _ _))
    (not_isBlank_of_mem_paragraphLines lists (lines cur.rest))

/-- A row that is cut or filled up holds cells of the row, or nothing. -/
lemma mem_fitRow {columns : Nat} {cells : List Text} {t : Text} (h : t ∈ fitRow columns cells) :
    t = [] ∨ t ∈ cells := by
  rcases List.mem_append.1 h with ht | ht
  · exact .inr (List.mem_of_mem_take ht)
  · exact .inl (List.eq_of_mem_replicate ht)

lemma table?_isFrom (h : table? scope cur = some m) (hp : m.value = .pending p) :
    p.IsFrom cur.point (cur.rest.take m.length) .table := by
  obtain ⟨header, dashed, body, hinitial, -, rfl⟩ := exists_of_table? h
  cases hp
  have htaken : (header :: dashed :: body).flatten <+:
      cur.rest.take (header.length + dashed.length + body.flatten.length) := by
    refine List.prefix_take_iff.2 ⟨flatten_initial hinitial, ?_⟩
    simp only [List.flatten_cons, List.length_append]
    omega
  have hline {line : Text} (hmem : line ∈ header :: dashed :: body) :
      line <:+: cur.rest.take (header.length + dashed.length + body.flatten.length) :=
    (List.infix_of_mem_flatten hmem).trans htaken.isInfix
  refine .table fun t ht => ?_
  rcases List.mem_append.1 ht with ht | ht
  · exact .inr ⟨header, hline List.mem_cons_self, ht⟩
  · obtain ⟨row, hrow, ht⟩ := List.mem_flatten.1 ht
    obtain ⟨line, hmem, rfl⟩ := List.mem_map.1 hrow
    rcases mem_fitRow ht with rfl | hcell
    · exact .inl rfl
    · exact .inr ⟨line, hline (by simp [hmem]), hcell⟩

end Recognize

/-- **The texts of a pending block.**  Whatever construct leaves a block to the second pass, the
texts of the block come from what the construct covers. -/
theorem BlockConstruct.recognize_pending {nest : Option BlockReader} {scope : Scope} {cur : Cursor}
    {c : BlockConstruct} {m : Found Block.Body} {p : Pending}
    (h : c.recognize nest scope cur = .ok (some m)) (hp : m.value = .leaf (.pending p)) :
    p.IsFrom cur.point (cur.rest.take m.length) c := by
  have hkind : (Block.ofBody ⟨c.name, ⟨{}, {}⟩⟩ m.value).kind = c.made := recognize_kind h
  have hmade : c.made = .pending := by
    rw [← hkind, hp]
    rfl
  cases c with
  | heading name style level =>
    obtain ⟨x, hx, rfl⟩ := Option.map_eq_some_iff.1 (Except.ok.inj h)
    exact heading?_isFrom hx (Block.Body.leaf.inj hp)
  | underlinedHeading =>
    obtain ⟨x, hx, rfl⟩ := Option.map_eq_some_iff.1 (Except.ok.inj h)
    exact underlinedHeading?_isFrom hx (Block.Body.leaf.inj hp)
  | table =>
    obtain ⟨x, hx, rfl⟩ := Option.map_eq_some_iff.1 (Except.ok.inj h)
    exact table?_isFrom hx (Block.Body.leaf.inj hp)
  | paragraph =>
    obtain ⟨x, hx, rfl⟩ := Option.map_eq_some_iff.1 (Except.ok.inj h)
    obtain ⟨-, -, rfl⟩ := paragraph?_eq_some hx
    exact paragraphBlock_isFrom (.inl rfl) (Block.Body.leaf.inj hp)
  | text =>
    cases h
    exact paragraphBlock_isFrom (.inr rfl) (Block.Body.leaf.inj hp)
  | _ => cases hmade

end Docmark
