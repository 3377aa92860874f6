import Mathlib
import Docmark.Proofs.Extent.Pending
import Docmark.Proofs.Reading.Nesting
import Docmark.Proofs.Reading.Passes

/-!
# The shape of a tree

What a renderer, a visitor or the expansion of directives may rely on in a tree that was read: which
frames hold which, that headings and tables have the sizes that their output needs, that notes are
of the known kinds, that emphasis has content, and that nothing is left unfinished.

Which blocks a frame may hold is a matter of their frames alone (`Block.Frame.Suits`).  So the first
pass settles it, grouping callouts keeps it, and the second pass cannot change it.

## Main results

* `readWith_isWellShaped` — every tree that the language's own constructs make is well shaped.
-/

namespace Docmark

/-! ## Emphasis -/

/-- A frame of emphasis holds something. -/
def Inline.IsFilled : Inline → Prop
  | .leaf _ _ => True
  | .node _ f ts => f.kind ∈ [.strong, .em, .del] → ts ≠ []

section Marks

variable {mark : Char} {cs content : Text}

/-- At the start of a text no pair of marks closes. -/
lemma closingPair?_pos {n : Nat} (h : closingPair? mark true cs = some n) : 0 < n := by
  have hsucc {k : Option Nat} {d : Nat} (hd : 0 < d) (hk : k.map (· + d) = some n) : 0 < n := by
    obtain ⟨k, -, rfl⟩ := Option.map_eq_some_iff.1 hk
    omega
  revert h
  fun_cases closingPair? mark true cs with
  | case1 => simp
  | case2 => simp
  | case3 => exact hsucc Nat.two_pos
  | case4 c cs hc hclose => simp at hclose
  | case5 => exact hsucc Nat.one_pos

/-- At the start of a text no mark closes. -/
lemma closingMark?_pos {n : Nat} (h : closingMark? mark true cs = some n) : 0 < n := by
  have hsucc {k : Option Nat} {d : Nat} (hd : 0 < d) (hk : k.map (· + d) = some n) : 0 < n := by
    obtain ⟨k, -, rfl⟩ := Option.map_eq_some_iff.1 hk
    omega
  revert h
  fun_cases closingMark? mark true cs with
  | case3 => exact hsucc Nat.two_pos
  | case4 => exact hsucc Nat.one_pos
  | case7 => exact hsucc Nat.two_pos
  | case6 => contradiction
  | case9 => contradiction
  | case10 => contradiction
  | _ => simp

lemma betweenPairs?_ne_nil (h : betweenPairs? mark cs = some content) : content ≠ [] := by
  obtain ⟨inner, n, -, hn, rfl⟩ := exists_of_betweenPairs? h
  have hpos : 0 < n := closingPair?_pos hn
  have hlength : n + 2 ≤ inner.length := closingPair?_le hn
  rw [← List.length_pos_iff, List.length_take]
  omega

lemma betweenMarks?_ne_nil (h : betweenMarks? cs = some content) : content ≠ [] := by
  obtain ⟨mark, inner, n, -, hn, rfl⟩ := exists_of_betweenMarks? h
  have hpos : 0 < n := closingMark?_pos hn
  have hlength : n < inner.length := closingMark?_lt hn
  rw [← List.length_pos_iff, List.length_take]
  omega

lemma IsBetween.ne_nil {size : Nat} (h : IsBetween cs size content) : content ≠ [] := by
  obtain ⟨-, mark, hpairs⟩ | ⟨-, hmarks⟩ := h
  · exact betweenPairs?_ne_nil hpairs
  · exact betweenMarks?_ne_nil hmarks

end Marks

/-- A reader that yields something for every text but the empty one. -/
def InlineReader.Fills (read : InlineReader) : Prop :=
  ∀ scope text origin ts, read scope text origin = .ok ts → text ≠ [] → ts ≠ []

lemma runInlines_fills (rules : RuleSet) (defs : Definitions) (nest : Option InlineReader) :
    InlineReader.Fills (runInlines rules defs nest) := by
  intro scope text origin ts h hne
  obtain ⟨hfault, rfl⟩ := Run.tokens_of_toExcept h
  revert hfault
  rw [readAll, dif_neg (show (Cursor.ofText text origin).rest ≠ [] from hne)]
  split
  · simp
  · simp
  · split
    · simp
    · simp

section Filled

variable {nest : Option InlineReader} {scope : Scope} {cur : Cursor} {m : Found Inline.Body}
  {head : Head}

lemma InlineConstruct.recognize_isFilled {defs : Definitions} {c : InlineConstruct}
    (hnest : ∀ read, nest = some read →
      InlineReader.Yields read fun _ t => ∀ n ∈ t.nodes, n.IsFilled)
    (hfills : ∀ read, nest = some read → InlineReader.Fills read)
    (h : c.recognize defs nest scope cur = .ok (some m)) :
    ∀ n ∈ (Inline.ofBody head m.value).nodes, n.IsFilled := by
  rcases c.recognize_cases h with
    ⟨l, hvalue, -⟩ | ⟨target, -, hlink⟩ | ⟨frame, size, content, -, -, hbetween, hframed⟩
  · simp [hvalue, Inline.ofBody, Inline.IsFilled]
  · obtain ⟨l, d, -, -, rfl | ⟨read, ts, hread, -, hts, rfl⟩⟩ := exists_of_linkVia hlink
    · simp [Inline.ofBody, Inline.IsFilled]
    · exact Inline.forall_nodes_node.2 ⟨by simp [Inline.IsFilled, Inline.Frame.kind],
        hnest read hread _ _ _ _ hts⟩
  · obtain ⟨read, text, ts, hread, htext, hts, rfl⟩ := exists_of_framed hframed
    have hne : ts ≠ [] := hfills read hread _ _ _ _ hts (hbetween text htext).ne_nil
    exact Inline.forall_nodes_node.2 ⟨fun _ => hne, hnest read hread _ _ _ _ hts⟩

end Filled

/-- No emphasis is empty: what stands between two marks is a text of its own, and reading it yields
something. -/
lemma readInlines_isFilled {rules : RuleSet} (hrules : rules.IsStandard) (defs : Definitions) :
    InlineReader.Yields (readInlines rules defs) fun _ t => ∀ n ∈ t.nodes, n.IsFilled := by
  have hrun (nest : Option InlineReader)
      (hnest : ∀ read, nest = some read →
        InlineReader.Yields read fun _ t => ∀ n ∈ t.nodes, n.IsFilled)
      (hfills : ∀ read, nest = some read → InlineReader.Fills read) :
      InlineReader.Yields (runInlines rules defs nest) fun _ t => ∀ n ∈ t.nodes, n.IsFilled := by
    intro scope text origin ts h
    exact runInlines_tokens (P := fun t => ∀ n ∈ t.nodes, n.IsFilled) hrules
      (fun _ _ _ _ hfound => InlineConstruct.recognize_isFilled hnest hfills hfound) h
  have hfills : ∀ n, InlineReader.Fills (inlinesAt rules defs n)
    | 0 => runInlines_fills rules defs none
    | n + 1 => runInlines_fills rules defs (some (inlinesAt rules defs n))
  have hlevels : ∀ n, InlineReader.Yields (inlinesAt rules defs n)
      fun _ t => ∀ n ∈ t.nodes, n.IsFilled := by
    intro n
    induction n with
    | zero => exact hrun none (by simp) (by simp)
    | succ n ih =>
      refine hrun _ ?_ ?_
      · rintro read ⟨⟩
        exact ih
      · rintro read ⟨⟩
        exact hfills n
  intro scope
  exact hlevels scope.budget scope

/-! ## Headings and tables -/

/-- A table of a number of columns, at least one: its header and each row have one cell in each. -/
def IsGrid {α : Type} (columns : Nat) (header : List α) (rows : List (List α)) : Prop :=
  0 < columns ∧ header.length = columns ∧ ∀ row ∈ rows, row.length = columns

/-- A block that waits to become a heading or a table of the right size. -/
def Pending.Form.IsShaped : Pending.Form → Prop
  | .heading depth => 1 ≤ depth ∧ depth ≤ 6
  | .table align header rows => IsGrid align.length header rows
  | _ => True

/-- A heading or a table of the right size, also one that is still pending. -/
def Block.Leaf.IsShaped : Block.Leaf → Prop
  | .heading depth _ _ => 1 ≤ depth ∧ depth ≤ 6
  | .table align header rows => IsGrid align.length header rows
  | .pending p => p.form.IsShaped
  | _ => True

lemma Block.Leaf.isShaped_of_kind {l : Block.Leaf} (h : l.kind ∉ [.heading, .table, .pending]) :
    l.IsShaped := by
  cases l with
  | heading => simp [Leaf.kind] at h
  | table => simp [Leaf.kind] at h
  | pending => simp [Leaf.kind] at h
  | _ => trivial

section Leaf

variable {scope : Scope} {cur : Cursor} {m : Found Block.Leaf}

lemma headingLine?_depth {style : HeadingStyle} {line : Text} {l : HeadingLine}
    (h : headingLine? style line = some l) : 1 ≤ l.depth ∧ l.depth ≤ 6 := by
  cases style with
  | relaxed =>
    simp only [headingLine?, relaxedHeading?] at h
    obtain ⟨hdepth, h⟩ := Option.ite_none_left_eq_some.1 h
    cases h
    dsimp only
    split_ifs at hdepth ⊢ <;> omega
  | strict =>
    simp only [headingLine?, strictHeading?] at h
    obtain ⟨hdepth, h⟩ := Option.ite_none_left_eq_some.1 h
    cases h
    dsimp only
    omega

lemma heading?_isShaped {style : HeadingStyle} {level : Option Nat}
    (h : heading? style level scope cur = some m) : m.value.IsShaped := by
  obtain ⟨hd, hhd, rfl⟩ := exists_of_heading? h
  exact headingLine?_depth hhd

lemma underlineDepth?_le {line : Text} {depth : Nat} (h : underlineDepth? line = some depth) :
    1 ≤ depth ∧ depth ≤ 6 := by
  simp only [underlineDepth?] at h
  split at h
  next => cases h
  next =>
    split at h
    next =>
      cases h
      split <;> omega
    next => cases h

lemma underlinedHeading?_isShaped (h : underlinedHeading? scope cur = some m) :
    m.value.IsShaped := by
  obtain ⟨c, below, depth, -, hdepth, rfl⟩ := exists_of_underlinedHeading? h
  exact underlineDepth?_le hdepth

lemma length_fitRow (columns : Nat) (cells : List Text) :
    (fitRow columns cells).length = columns := by
  rw [fitRow, List.length_append, List.length_take, List.length_replicate]
  omega

lemma table?_isShaped (h : table? scope cur = some m) : m.value.IsShaped := by
  obtain ⟨header, dashed, body, -, hlength, rfl⟩ := exists_of_table? h
  refine ⟨?_, hlength, ?_⟩
  · rw [← hlength]
    exact List.length_pos_iff.2 (splitBars_ne_nil _ _)
  · intro row hrow
    obtain ⟨line, -, rfl⟩ := List.mem_map.1 hrow
    rw [length_fitRow, hlength]

end Leaf

/-- Completing a heading or a table keeps its size. -/
lemma Pending.complete_isShaped {read : InlineReader} {rule : String} {p : Pending}
    {l : Block.Leaf} (hp : p.form.IsShaped) (h : p.complete read rule = .ok l) : l.IsShaped := by
  obtain ⟨form, source, origin, scope⟩ := p
  cases Pending.becomes_of_complete h with
  | heading => exact hp
  | paragraph => trivial
  | text => trivial
  | table hheader hrows =>
    obtain ⟨hpos, hlength, hrow⟩ := hp
    refine ⟨hpos, ?_, ?_⟩
    · rw [← hheader.length_eq, hlength]
    · intro row' hrow'
      obtain ⟨row, hmem, hcells⟩ := exists_of_mem_forall₂ hrows row' hrow'
      rw [← hcells.length_eq, hrow row hmem]

/-! ## Frames -/

/-- The words for the kinds of notes. -/
def noteWords : List Text := noteKinds.map fun kind => upperAscii kind.toList

lemma noteWords_eq :
    noteWords = ["NOTE", "TIP", "WARNING", "IMPORTANT", "CAUTION"].map String.toList := by
  decide

/-- What a frame may hold: a list its items, and every other frame anything but items. -/
def Block.Frame.Suits : Block.Frame → List (Option Block.Frame) → Prop
  | .list ordered start loose, inner => inner ≠ [] ∧ start.isSome = ordered ∧
      ∀ f ∈ inner, ∃ checked, f = some (.listItem checked loose)
  | .note kind, inner => kind ∈ noteWords ∧
      ∀ checked loose, some (.listItem checked loose) ∉ inner
  | _, inner => ∀ checked loose, some (.listItem checked loose) ∉ inner

/-- A leaf of the right size, or a frame that suits the frames of its children. -/
def Block.IsShaped : Block → Prop
  | .leaf _ c => c.IsShaped
  | .node _ f bs => f.Suits (bs.map Block.frame?)

/-- A block outside of lists: everything in it is shaped, and it is no item. -/
def Block.IsProper (b : Block) : Prop :=
  (∀ n ∈ b.nodes, n.IsShaped) ∧ ∀ checked loose, b.frame? ≠ some (.listItem checked loose)

/-- No item is among proper blocks. -/
lemma listItem_not_mem {bs : List Block} (h : ∀ b ∈ bs, b.IsProper) (checked : Option Bool)
    (loose : Bool) : some (.listItem checked loose) ∉ bs.map Block.frame? := by
  intro hmem
  obtain ⟨b, hb, hframe⟩ := List.mem_map.1 hmem
  exact (h b hb).2 checked loose hframe

/-- A callout may gather proper blocks. -/
lemma Block.IsProper.group {bs : List Block} (h : ∀ b ∈ bs, b.IsProper) :
    ∀ g ∈ groupCallouts bs, g.IsProper := by
  intro g hg
  rcases isGroup_of_mem_groupCallouts g hg with
    hmem | ⟨hd, hd', f, kids, moved, hmem, hf, rfl, hmoved⟩
  · exact h g hmem
  · obtain ⟨hnodes, hitem⟩ := h _ hmem
    rw [Block.forall_nodes_node] at hnodes
    obtain ⟨hsuits, hkids⟩ := hnodes
    have hinner : ∀ checked loose,
        some (.listItem checked loose) ∉ (kids ++ moved).map Block.frame? := by
      intro checked loose
      rw [List.map_append, List.mem_append, not_or]
      refine ⟨?_, listItem_not_mem (fun d hd => h d (hmoved d hd).1) checked loose⟩
      cases f with
      | note kind => exact hsuits.2 checked loose
      | division attributes => exact hsuits checked loose
      | _ => cases hf
    refine ⟨Block.forall_nodes_node.2 ⟨?_, fun d hd => ?_⟩, hitem⟩
    · cases f with
      | note kind => exact ⟨hsuits.1, hinner⟩
      | division attributes => exact hinner
      | _ => cases hf
    · rcases List.mem_append.1 hd with hd | hd
      · exact hkids d hd
      · exact (h d (hmoved d hd).1).1

/-! ## The first pass -/

section FirstPass

variable {scope : Scope} {cur : Cursor} {head : Head}

lemma isProper_leaf {l : Block.Leaf} (hl : l.IsShaped) :
    (Block.ofBody head (.leaf l)).IsProper := by
  constructor
  · intro n hn
    rw [Block.ofBody, Block.nodes_leaf, List.mem_singleton] at hn
    rw [hn]
    exact hl
  · intro checked loose hframe
    cases hframe

lemma isProper_of_ok_map {found : Option (Found Block.Leaf)} {m : Found Block.Body}
    (hleaf : ∀ x, found = some x → x.value.IsShaped)
    (h : (.ok (found.map (·.map .leaf)) : Except Fault (Option (Found Block.Body))) =
      .ok (some m)) : (Block.ofBody head m.value).IsProper := by
  obtain ⟨x, hx, rfl⟩ := Option.map_eq_some_iff.1 (Except.ok.inj h)
  exact isProper_leaf (hleaf x hx)

/-- A list of items around proper blocks is proper. -/
lemma isProper_list {read : BlockReader} (hread : read.Yields fun _ b => b.IsProper)
    {m : Found Block.Body} (h : list? read scope cur = .ok (some m)) :
    (Block.ofBody head m.value).IsProper := by
  obtain ⟨marker, scan, items, hscan, hitems, hvalue⟩ := exists_of_list? h
  have hitem : ∀ i ∈ items, (∃ checked, i.frame? = some (.listItem checked scan.loose)) ∧
      ∀ n ∈ i.nodes, n.IsShaped := by
    intro i hi
    obtain ⟨item, -, hread'⟩ := exists_of_mem_forall₂ hitems i hi
    obtain ⟨hd, bs, hbs, rfl⟩ := exists_of_readItem hread'
    have hproper : ∀ b ∈ bs, b.IsProper := hread _ _ _ _ hbs
    exact ⟨⟨_, rfl⟩, Block.forall_nodes_node.2
      ⟨listItem_not_mem hproper, fun b hb => (hproper b hb).1⟩⟩
  have hne : items ≠ [] := by
    intro hnil
    rw [hnil] at hitems
    exact listScan?_ne_nil hscan (List.forall₂_nil_right_iff.1 hitems)
  rw [hvalue]
  refine ⟨Block.forall_nodes_node.2 ⟨⟨by simpa using hne, rfl, ?_⟩, fun i hi => (hitem i hi).2⟩, ?_⟩
  · intro f hf
    obtain ⟨i, hi, rfl⟩ := List.mem_map.1 hf
    exact (hitem i hi).1
  · intro checked loose hframe
    cases hframe

lemma BlockConstruct.recognize_isProper {nest : Option BlockReader}
    (hnest : ∀ read, nest = some read → BlockReader.Yields read fun _ b => b.IsProper)
    {c : BlockConstruct} {m : Found Block.Body} (h : c.recognize nest scope cur = .ok (some m)) :
    (Block.ofBody head m.value).IsProper := by
  have hkind : (Block.ofBody head m.value).kind = c.made := recognize_kind h
  -- only pending headings and tables have a shape to keep
  have hleaf (hvalue : ∃ l, m.value = .leaf l) (hmade : c.made ≠ .pending) :
      (Block.ofBody head m.value).IsProper := by
    obtain ⟨l, hl⟩ := hvalue
    rw [hl] at hkind ⊢
    refine isProper_leaf (Block.Leaf.isShaped_of_kind ?_)
    have hl : l.kind = c.made := hkind
    rw [hl]
    cases c <;> first | decide | exact absurd rfl hmade
  cases c with
  | heading name style level => exact isProper_of_ok_map (fun _ => heading?_isShaped) h
  | underlinedHeading => exact isProper_of_ok_map (fun _ => underlinedHeading?_isShaped) h
  | table => exact isProper_of_ok_map (fun _ => table?_isShaped) h
  | paragraph =>
    refine isProper_of_ok_map (fun x hx => ?_) h
    obtain ⟨-, -, rfl⟩ := paragraph?_eq_some hx
    trivial
  | text =>
    cases h
    exact isProper_leaf trivial
  | blockquote =>
    cases nest with
    | none => cases h
    | some read =>
      obtain ⟨-, bs, hbs, rfl⟩ := exists_of_blockquote? h
      have hproper : ∀ g ∈ groupCallouts bs, g.IsProper :=
        Block.IsProper.group (hnest read rfl _ _ _ _ hbs)
      refine ⟨Block.forall_nodes_node.2 ⟨listItem_not_mem hproper, fun g hg => ?_⟩, ?_⟩
      · exact (hproper g hg).1
      · intro checked loose hframe
        cases hframe
  | list =>
    cases nest with
    | none => cases h
    | some read => exact isProper_list (hnest read rfl) h
  | note =>
    obtain ⟨kind, hmem, hvalue⟩ := note?_value (Except.ok.inj h)
    rw [hvalue]
    refine ⟨Block.forall_nodes_node.2 ⟨⟨List.mem_map.2 ⟨kind, hmem, rfl⟩, by simp⟩, by simp⟩, ?_⟩
    intro checked loose hframe
    cases hframe
  | division =>
    obtain ⟨attributes, hvalue⟩ := division?_value (Except.ok.inj h)
    rw [hvalue]
    refine ⟨Block.forall_nodes_node.2 ⟨?_, by simp⟩, ?_⟩
    · simp [Block.IsShaped, Block.Frame.Suits]
    · intro checked loose hframe
      cases hframe
  | video =>
    obtain ⟨url, hvalue⟩ := video?_value (Except.ok.inj h)
    exact hleaf ⟨_, hvalue⟩ (by decide)
  | _ => exact hleaf (exists_leaf_of_ok_map h) (by decide)

end FirstPass

/-- Every block of the first pass is proper. -/
lemma scanBlocks_isProper {rules : RuleSet} (hrules : rules.IsStandard) (scope : Scope)
    (text : Text) (origin : Point) :
    ∀ b ∈ (scanBlocks rules scope text origin).tokens, b.IsProper :=
  scanBlocks_tokens (P := fun _ b => b.IsProper) hrules
    (fun _ hnest _ _ _ _ _ h => BlockConstruct.recognize_isProper hnest h) scope text origin

/-! ## Both passes -/

/-- Completing a block keeps its shape. -/
lemma Block.IsShaped.resolve {read : InlineReader} {b b' : Block} (hb : b.IsShaped)
    (h : b.resolve read = .ok b') : b'.IsShaped := by
  cases b' with
  | leaf hd c =>
    obtain ⟨p, rfl, hc⟩ | ⟨rfl, -⟩ := exists_of_resolve_leaf h
    · exact Pending.complete_isShaped hb hc
    · exact hb
  | node hd f bs' =>
    obtain ⟨bs, rfl, hbs⟩ := exists_of_resolve_node h
    show f.Suits (bs'.map Block.frame?)
    rw [map_frame?_of_resolve hbs]
    exact hb

/-- What holds an item is a list that is as spread out as the item says. -/
lemma Block.Frame.Suits.exists_list {f : Block.Frame} {inner : List (Option Block.Frame)}
    {checked : Option Bool} {loose : Bool} (h : f.Suits inner)
    (hmem : some (.listItem checked loose) ∈ inner) :
    ∃ ordered start, f = .list ordered start loose := by
  cases f with
  | list ordered start loose' =>
    obtain ⟨checked', hitem⟩ := h.2.2 _ hmem
    cases hitem
    exact ⟨ordered, start, rfl⟩
  | note kind => exact absurd hmem (h.2 checked loose)
  | _ => exact absurd hmem (h checked loose)

/-! ## Documents -/

/-- A document whose tokens have the shape that its readers rely on. -/
structure Block.IsWellShaped (root : Block) : Prop where
  /-- The root is the only document. -/
  document : ∀ above n, root.HasInside above n → (n.kind = .document ↔ above = [])
  /-- A list holds items that are as spread out as it is, at least one, and starts with a number
  exactly if it is ordered. -/
  list : ∀ hd ordered start loose items, .node hd (.list ordered start loose) items ∈ root.nodes →
    items ≠ [] ∧ (start.isSome ↔ ordered = true) ∧
      ∀ i ∈ items, ∃ checked, i.frame? = some (.listItem checked loose)
  /-- Items stand in lists only. -/
  item : ∀ above hd checked loose bs,
    root.HasInside above (.node hd (.listItem checked loose) bs) →
      ∃ ordered start, above.getLast? = some (.list ordered start loose)
  heading : ∀ hd depth id content, .leaf hd (.heading depth id content) ∈ root.nodes →
    1 ≤ depth ∧ depth ≤ 6
  /-- The header of a table and each of its rows have a cell for each column, of which there is at
  least one. -/
  table : ∀ hd align header rows, .leaf hd (.table align header rows) ∈ root.nodes →
    1 ≤ align.length ∧ header.length = align.length ∧ ∀ row ∈ rows, row.length = align.length
  note : ∀ hd kind bs, .node hd (.note kind) bs ∈ root.nodes →
    kind ∈ ["NOTE", "TIP", "WARNING", "IMPORTANT", "CAUTION"].map String.toList
  /-- Emphasis has content. -/
  emphasis : ∀ hd f ts, .node hd f ts ∈ root.inlineNodes → f.kind ∈ [.strong, .em, .del] → ts ≠ []
  /-- No block is left to be completed or expanded by a later pass. -/
  finished : ∀ n ∈ root.nodes, n.kind ∉ [.pending, .included, .raw]
  /-- No inline token comes from a later pass. -/
  finishedInline : ∀ t ∈ root.inlineNodes, t.kind ∉ [.included, .raw]

section Documents

variable {rules : RuleSet} {defs : Definitions} {scope : Scope} {text : Text} {root : Block}

/-- Every block of a document that was read has the shape that its kind asks for. -/
lemma readWith_isShaped (hrules : rules.IsStandard)
    (h : (readWith rules defs scope text).1 = .ok root) {above : List Block.Frame} {n : Block}
    (hn : root.HasInside above n) : n.IsShaped := by
  obtain ⟨bs, hbs, hres⟩ := exists_of_readWith h
  have hproper : ∀ b ∈ bs, b.IsProper := by
    rw [← hbs]
    exact scanBlocks_isProper hrules scope text Point.start
  have hroot : ∀ m ∈ (Block.ofDocument text bs).nodes, m.IsShaped :=
    Block.forall_nodes_node.2 ⟨listItem_not_mem hproper, fun b hb => (hproper b hb).1⟩
  obtain ⟨m, hm, hmres⟩ := hn.of_resolve hres
  exact (hroot m (Block.mem_nodes_iff.2 ⟨above, hm⟩)).resolve hmres

/-- Every inline token of a document that was read has the content that its kind asks for. -/
lemma readWith_isFilled (hrules : rules.IsStandard)
    (h : (readWith rules defs scope text).1 = .ok root) : ∀ t ∈ root.inlineNodes, t.IsFilled := by
  intro t ht
  obtain ⟨defs', scope', text', origin, ts, hts, u, hu, htu⟩ :=
    exists_read_of_mem_inlineNodes hrules h ht
  exact readInlines_isFilled hrules _ scope' text' origin ts hts u hu t htu

/-- **Trees are well shaped.**  Whatever the text, and in whatever scope and with whatever
definitions it is read, the tree that the language's own constructs make of it is well shaped. -/
theorem readWith_isWellShaped (hrules : rules.IsStandard)
    (h : (readWith rules defs scope text).1 = .ok root) : root.IsWellShaped := by
  have hshaped {n : Block} (hn : n ∈ root.nodes) : n.IsShaped := by
    obtain ⟨above, hn⟩ := Block.mem_nodes_iff.1 hn
    exact readWith_isShaped hrules h hn
  obtain ⟨hread, hreadInline⟩ := readWith_isRead hrules h
  have hfilled := readWith_isFilled hrules h
  obtain ⟨bs, bs', -, -, hroot⟩ := readWith_ok h
  -- below the root there are only tokens as the two passes leave them
  have hbelow {above : List Block.Frame} {n : Block} (hn : root.HasInside above n) :
      above = [] ∧ n = root ∨ above ≠ [] ∧ n.IsRead := by
    rw [hroot, Block.ofDocument, Block.hasInside_node] at hn
    rcases hn with ⟨rfl, rfl⟩ | ⟨b, hb, inner, rfl, hn⟩
    · exact .inl ⟨rfl, hroot.symm⟩
    · refine .inr ⟨List.cons_ne_nil _ _, hread b ?_ n (Block.mem_nodes_iff.2 ⟨inner, hn⟩)⟩
      rw [hroot]
      exact hb
  have hkind : root.kind = .document := by rw [hroot]; rfl
  constructor
  case document =>
    intro above n hn
    rcases hbelow hn with ⟨rfl, rfl⟩ | ⟨hne, hisRead⟩
    · exact ⟨fun _ => rfl, fun _ => hkind⟩
    · refine ⟨fun hdocument => absurd ?_ hisRead, fun hnil => absurd hnil hne⟩
      rw [hdocument]
      decide
  case list =>
    intro hd ordered start loose items hn
    obtain ⟨hne, hstart, hitems⟩ := hshaped hn
    refine ⟨by simpa using hne, by rw [hstart], fun i hi => ?_⟩
    exact hitems _ (List.mem_map_of_mem hi)
  case item =>
    intro above hd checked loose bs hn
    rcases List.eq_nil_or_concat above with rfl | ⟨front, f, rfl⟩
    · obtain ⟨-, hitem⟩ | ⟨hne, -⟩ := hbelow hn
      · rw [hroot] at hitem
        cases hitem
      · exact absurd rfl hne
    · rw [List.concat_eq_append] at hn ⊢
      obtain ⟨hd', siblings, hparent, hmem⟩ := hn.exists_parent
      have hsuits : f.Suits (siblings.map Block.frame?) := readWith_isShaped hrules h hparent
      obtain ⟨ordered, start, rfl⟩ := hsuits.exists_list (List.mem_map.2 ⟨_, hmem, rfl⟩)
      exact ⟨ordered, start, List.getLast?_concat⟩
  case heading => exact fun hd depth id content hn => hshaped hn
  case table => exact fun hd align header rows hn => hshaped hn
  case note =>
    intro hd kind bs hn
    have hsuits : (Block.Frame.note kind).Suits (bs.map Block.frame?) := hshaped hn
    exact noteWords_eq ▸ hsuits.1
  case emphasis => exact fun hd f ts ht => hfilled _ ht
  case finished =>
    intro n hn hmem
    obtain ⟨above, hn⟩ := Block.mem_nodes_iff.1 hn
    rcases hbelow hn with ⟨-, rfl⟩ | ⟨-, hisRead⟩
    · rw [hkind] at hmem
      exact absurd hmem (by decide)
    · have hsubset : [BlockTag.pending, .included, .raw] ⊆ [.document, .included, .raw, .pending] :=
        by decide
      exact hisRead (hsubset hmem)
  case finishedInline => exact hreadInline

/-- A note with a list in it, a table whose last row is short, and an underlined heading. -/
theorem readWith_isWellShaped_dfm :
    dfmRules.IsStandard ∧ ∃ root,
      (readWith dfmRules [] Scope.document
        "> [!TIP]\n> 1. **a**\n\na|b\n-|-\nc\n\nd\n==\n".toList).1 = .ok root ∧
      root.IsWellShaped := by
  have hrules : dfmRules.IsStandard := Flavor.rules_isStandard .dfm
  obtain ⟨root, hroot⟩ := exists_readWith hrules (Flavor.rules_hasText .dfm) [] Scope.document
    "> [!TIP]\n> 1. **a**\n\na|b\n-|-\nc\n\nd\n==\n".toList
  exact ⟨hrules, root, hroot, readWith_isWellShaped hrules hroot⟩

end Documents

end Docmark
