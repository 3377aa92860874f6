import Mathlib
import Docmark.Proofs.Reading.Stretches

/-!
# Why a list is loose

Whether a list is loose is settled by its scan, line by line and before the content of its items is
read.  Where the blank lines of an item stand among its blocks is known only afterwards.  Each list
of a tree is traced back to the place where it was scanned for (`Block.IsListAt`), and what the scan
has noted of an item is compared with the blocks of the item.

A blank line that stands between two items, or between two blocks of an item, makes a list loose.
So does one within a block of an item, such as a blank line in fenced code or in a nested list, and
one behind a marker that stands on a line of its own.

## Main results

* `lists_are_loose_for_a_reason` — where the blank lines stand that make a list loose.
* `nested_gap_is_loose` — a list that is loose for a blank line in a nested list alone.
-/

namespace Docmark

/-! ## Lists and the place where they are scanned for -/

/-- A cursor on the way through a text that starts at `origin`, or on the way through the content
of a container there. -/
inductive Cursor.IsWithin (cur : Cursor) : Text → Point → Prop
  | here {text : Text} {origin : Point} : cur.IsIn text origin → cur.IsWithin text origin
  | quote {outer : Cursor} {text : Text} {origin : Point} : outer.IsIn text origin →
      cur.IsWithin (quotedText (quoteLines (lines outer.rest))) outer.point →
        cur.IsWithin text origin
  | item {outer : Cursor} {marker : ListMarker} {scan : ListScan} {item : ItemScan} {text : Text}
      {origin : Point} : outer.IsIn text origin →
        listScan? (lines outer.rest) = some (marker, scan) → item ∈ scan.items →
          cur.IsWithin (splitTask item.content).2 (outer.pointAt item.start) →
            cur.IsWithin text origin

/-- An item of a list: what was collected for it, and its blocks with their stretches of that. -/
structure CutItem where
  scan : ItemScan
  parts : List Part

namespace CutItem

/-- The text that the blocks of an item are read from. -/
def text (i : CutItem) : Text := (splitTask i.scan.content).2

/-- The token of an item of a list that starts at a cursor. -/
def block (cur : Cursor) (loose : Bool) (i : CutItem) : Block :=
  .node ⟨listName, i.scan.spanIn cur⟩ (.listItem (splitTask i.scan.content).1 loose)
    (i.parts.map Part.block)

/-- The blocks of an item are cut off its text one after the other. -/
structure IsCut (cur : Cursor) (i : CutItem) : Prop where
  text : i.parts.flatMap Part.text = i.text
  abut : Abut (cur.pointAt i.scan.start) i.parts
  parts : ∀ b ∈ i.parts, b.IsCut

end CutItem

/-- A list that is read at a cursor, loose if its scan says so, with its items. -/
structure Block.IsListAt (cur : Cursor) (loose : Bool) (items : List CutItem) (list : Block) :
    Prop where
  exists_scan : ∃ marker scan length, listScan? (lines cur.rest) = some (marker, scan) ∧
    scan.items = items.map CutItem.scan ∧ scan.loose = loose ∧
      list = .node ⟨listName, cur.spanOf length⟩ (.list marker.ordered marker.number loose)
        (items.map (CutItem.block cur loose))
  items : ∀ i ∈ items, i.IsCut cur

/-- **What makes a list loose.**  Where its scan has passed a blank line, the line stands between
two items, between two blocks of an item, within one, or in front of the first. -/
lemma Block.IsListAt.loose_iff {cur : Cursor} {loose : Bool} {items : List CutItem} {list : Block}
    (h : list.IsListAt cur loose items) :
    loose = true ↔ ItemsApart cur (items.map CutItem.scan) ∨
      ∃ i ∈ items, BlocksApart i.parts ∨ BlankInside i.parts ∨ StartsBlank i.text := by
  obtain ⟨marker, scan, length, hscan, hitems, rfl, -⟩ := h.exists_scan
  have hitem {i : CutItem} (hi : i ∈ items) : i.scan.spaced = true ↔
      BlocksApart i.parts ∨ BlankInside i.parts ∨ StartsBlank i.text := by
    have hmem : i.scan ∈ scan.items := hitems ▸ List.mem_map_of_mem hi
    have htells := (listScan?_tells hscan i.scan hmem).losesFront (splitTask_losesFront _)
    obtain ⟨htext, -, hparts⟩ := h.items i hi
    rw [← CutItem.text, ← htext] at htells
    rw [htells.iff_parts hparts, htext]
  rw [ListScan.loose, Bool.or_eq_true, listScan?_spaced hscan, hitems, List.any_map,
    List.any_eq_true]
  exact or_congr_right (exists_congr fun i => and_congr_right hitem)

/-! ## The first pass -/

lemma Block.Leaf.kind_ne_list (l : Block.Leaf) : l.kind ≠ .list := by
  cases l <;> simp [Block.Leaf.kind]

/-- Every list in a block was scanned for at a place within the text. -/
def Block.IsTraced (text : Text) (origin : Point) (b : Block) : Prop :=
  ∀ n ∈ b.nodes, n.kind = .list →
    ∃ cur loose items, cur.IsWithin text origin ∧ n.IsListAt cur loose items

/-- A reader whose blocks are cut off its text one after the other, and every list in them is
traced. -/
def BlockReader.Traces (read : BlockReader) : Prop :=
  ∀ scope text origin bs, read scope text origin = .ok bs →
    (∃ parts : List Part, parts.map Part.block = bs ∧ parts.flatMap Part.text = text ∧
      Abut origin parts ∧ ∀ b ∈ parts, b.IsCut) ∧ ∀ b ∈ bs, b.IsTraced text origin

namespace Block.IsTraced

variable {text text' : Text} {origin origin' : Point} {b : Block}

/-- What is within one text is within another that leads to it. -/
lemma mono (h : b.IsTraced text origin)
    (hwithin : ∀ cur : Cursor, cur.IsWithin text origin → cur.IsWithin text' origin') :
    b.IsTraced text' origin' := by
  intro n hn hlist
  obtain ⟨cur, loose, items, hcur, hat⟩ := h n hn hlist
  exact ⟨cur, loose, items, hwithin cur hcur, hat⟩

lemma of_leaf {hd : Head} {l : Block.Leaf} : (Block.leaf hd l).IsTraced text origin := by
  intro n hn hlist
  rw [nodes_leaf, List.mem_singleton] at hn
  subst hn
  exact absurd hlist l.kind_ne_list

/-- A frame that is no list only has the lists in its blocks. -/
lemma of_node {hd : Head} {f : Block.Frame} {bs : List Block} (hf : f.kind ≠ .list)
    (h : ∀ b ∈ bs, b.IsTraced text origin) : (Block.node hd f bs).IsTraced text origin :=
  Block.forall_nodes_node.2 ⟨fun hlist => absurd hlist hf, h⟩

/-- Grouping moves blocks into callouts, and leaves lists as they are. -/
lemma group {bs : List Block} (h : ∀ b ∈ bs, b.IsTraced text origin) :
    ∀ b ∈ groupCallouts bs, b.IsTraced text origin := by
  refine groupCallouts_keeps (fun callout b grown hgrown hcallout hb => ?_) h
  obtain ⟨hd, f, kids, rfl, hf, rfl⟩ := exists_of_appendToCallout? hgrown
  obtain ⟨-, hkids⟩ := Block.forall_nodes_node.1 hcallout
  exact of_node (Block.Frame.kind_ne_list_of_gathers hf) (List.forall_mem_append.2 ⟨hkids, by simpa using hb⟩)

end Block.IsTraced

section Construct

variable {read : BlockReader} {nest : Option BlockReader} {scope : Scope} {cur : Cursor}
  {m : Found Block.Body} {text : Text} {origin : Point}

/-- The item that was read for what was collected. -/
lemma exists_cut_of_readItem (hread : read.Traces) {loose : Bool} {item : ItemScan} {b : Block}
    (h : readItem read scope cur loose item = .ok b) :
    ∃ i : CutItem, i.scan = item ∧ b = i.block cur loose ∧ i.IsCut cur ∧
      ∀ d ∈ i.parts.map Part.block,
        d.IsTraced (splitTask item.content).2 (cur.pointAt item.start) := by
  simp only [readItem] at h
  split at h
  next => cases h
  next bs hbs =>
    cases h
    obtain ⟨⟨parts, rfl, htext, habut, hparts⟩, htraced⟩ := hread _ _ _ _ hbs
    exact ⟨⟨item, parts⟩, rfl, rfl, ⟨htext, habut, hparts⟩, htraced⟩

lemma exists_cuts_of_readItems (hread : read.Traces) {loose : Bool} {scans : List ItemScan}
    {bs : List Block}
    (h : List.Forall₂ (fun item b => readItem read scope cur loose item = .ok b) scans bs) :
    ∃ items : List CutItem, scans = items.map CutItem.scan ∧
      bs = items.map (CutItem.block cur loose) ∧ ∀ i ∈ items, i.IsCut cur ∧
        ∀ d ∈ i.parts.map Part.block, d.IsTraced i.text (cur.pointAt i.scan.start) := by
  induction h with
  | nil => exact ⟨[], rfl, rfl, by simp⟩
  | cons hitem _ ih =>
    obtain ⟨i, rfl, rfl, hi⟩ := exists_cut_of_readItem hread hitem
    obtain ⟨items, rfl, rfl, hitems⟩ := ih
    exact ⟨i :: items, rfl, rfl, List.forall_mem_cons.2 ⟨hi, hitems⟩⟩

lemma list?_isTraced (hread : read.Traces) {length : Nat} (hcur : cur.IsIn text origin)
    (h : list? read scope cur = .ok (some m)) :
    (Block.ofBody ⟨listName, cur.spanOf length⟩ m.value).IsTraced text origin := by
  obtain ⟨marker, scan, bs, hscan, hbs, hvalue⟩ := exists_of_list? h
  obtain ⟨items, hitems, rfl, hcut⟩ := exists_cuts_of_readItems hread hbs
  rw [hvalue]
  refine Block.forall_nodes_node.2 ⟨fun _ => ⟨cur, scan.loose, items, .here hcur, ?_, ?_⟩, ?_⟩
  · exact ⟨marker, scan, length, hscan, hitems, rfl, rfl⟩
  · exact fun i hi => (hcut i hi).1
  · intro b hb
    obtain ⟨i, hi, rfl⟩ := List.mem_map.1 hb
    refine Block.IsTraced.of_node (by simp [Block.Frame.kind]) fun d hd => ?_
    refine ((hcut i hi).2 d hd).mono fun cur' hcur' => ?_
    exact .item hcur hscan (hitems ▸ List.mem_map_of_mem hi) hcur'

lemma blockquote?_isTraced (hread : read.Traces) {hd : Head} (hcur : cur.IsIn text origin)
    (h : blockquote? read scope cur = .ok (some m)) :
    (Block.ofBody hd m.value).IsTraced text origin := by
  obtain ⟨-, bs, hbs, rfl⟩ := exists_of_blockquote? h
  refine .of_node (by simp [Block.Frame.kind]) (.group fun b hb => ?_)
  exact ((hread _ _ _ _ hbs).2 b hb).mono fun cur' hcur' => .quote hcur hcur'

/-- What a construct makes is traced, if what it reads inside is. -/
lemma BlockConstruct.recognize_isTraced {c : BlockConstruct}
    (hnest : ∀ read, nest = some read → read.Traces) (hcur : cur.IsIn text origin)
    (h : c.recognize nest scope cur = .ok (some m)) :
    (Block.ofBody ⟨c.name, cur.spanOf m.length⟩ m.value).IsTraced text origin := by
  rcases c.recognize_cases h with
    ⟨read, hread, hquote⟩ | ⟨read, hread, hlist⟩ | ⟨f, hvalue, hf, -⟩ | ⟨l, hvalue, -⟩
  · exact blockquote?_isTraced (hnest read hread) hcur hquote
  · obtain rfl : c = .list := by
      obtain ⟨marker, scan, bs, -, -, hvalue⟩ := exists_of_list? hlist
      have hmade : (Block.ofBody ⟨c.name, cur.spanOf m.length⟩ m.value).kind = c.made :=
        recognize_kind h
      rw [hvalue] at hmade
      cases c <;> first | rfl | cases hmade
    exact list?_isTraced (hnest read hread) hcur hlist
  · rw [hvalue]
    exact .of_node (Block.Frame.kind_ne_list_of_gathers hf) (by simp)
  · rw [hvalue]
    exact .of_leaf

end Construct

/-- The blocks of the first pass are traced at every level. -/
lemma scanBlocks_traces {rules : RuleSet} (hrules : rules.IsStandard) (hskips : rules.SkipsBlank) :
    BlockReader.Traces fun scope text origin => (scanBlocks rules scope text origin).toExcept := by
  have hstep (nest : Option BlockReader) (hnest : ∀ read, nest = some read → read.Traces) :
      BlockReader.Traces fun scope text origin =>
        (runBlocks rules nest scope text origin).toExcept := by
    intro scope text origin bs h
    refine ⟨exists_parts hrules hskips h, ?_⟩
    obtain ⟨-, rfl⟩ := Run.tokens_of_toExcept h
    intro b hb
    obtain ⟨cur, c, found, hcur, hfound, rfl⟩ := runBlocks_places hrules nest scope text origin b hb
    exact BlockConstruct.recognize_isTraced hnest hcur hfound
  intro scope text origin bs h
  exact hstep _ (fun read => nestedBlocks_induction hstep) _ _ _ _ h

/-! ## The second pass -/

section Resolve

variable {read : InlineReader}

/-- Completing a block neither makes blank lines of it nor anything else of blank lines. -/
lemma isGap_of_resolve {b b' : Block} {text : Text} (h : b.resolve read = .ok b') :
    (Part.mk b' text).isGap = (Part.mk b text).isGap := by
  rw [Bool.eq_iff_iff, Part.isGap, Part.isGap, beq_iff_eq, beq_iff_eq]
  refine ⟨fun hb' => ?_, fun hb => kind_newline_of_resolve hb h⟩
  obtain ⟨hd, rfl⟩ := Block.exists_of_newline hb'
  obtain ⟨p, -, hcomplete⟩ | ⟨rfl, -⟩ := Block.exists_of_resolve_leaf h
  · exact absurd (Pending.complete_leaf hcomplete).1 (by simp [Block.Leaf.kind])
  · rfl

/-- The completed blocks have the stretches of the blocks. -/
lemma exists_parts_of_resolve {parts : List Part} {bs : List Block}
    (h : List.Forall₂ (fun b b' => b.resolve read = .ok b') (parts.map Part.block) bs) :
    ∃ parts' : List Part, parts'.map Part.block = bs ∧
      parts'.flatMap Part.text = parts.flatMap Part.text ∧ (∀ p, Abut p parts → Abut p parts') ∧
        ((∀ b ∈ parts, b.IsCut) → ∀ b ∈ parts', b.IsCut) := by
  induction parts generalizing bs with
  | nil =>
    rw [List.map_nil, List.forall₂_nil_left_iff] at h
    exact ⟨[], h.symm, rfl, fun _ => id, id⟩
  | cons part parts ih =>
    obtain ⟨b', bs', hb', hbs', rfl⟩ := List.forall₂_cons_left_iff.1 h
    obtain ⟨parts', rfl, htext, habut, hcut⟩ := ih hbs'
    have hgap : (Part.mk b' part.text).isGap = part.isGap := isGap_of_resolve hb'
    refine ⟨⟨b', part.text⟩ :: parts', rfl, by simp [htext], fun p hp => ⟨?_, habut _ hp.2⟩, ?_⟩
    · rw [Block.span, Block.head_resolve hb']
      exact hp.1
    · rw [List.forall_mem_cons, List.forall_mem_cons]
      rintro ⟨⟨hne, hblank, hflush⟩, hparts⟩
      exact ⟨⟨hne, fun h => hblank (hgap ▸ h), fun h => hflush (hgap ▸ h)⟩, hcut hparts⟩

/-- The completed items hold what the items held. -/
lemma exists_cuts_of_resolve {cur : Cursor} {loose : Bool} {items : List CutItem} {bs : List Block}
    (hitems : ∀ i ∈ items, i.IsCut cur)
    (h : List.Forall₂ (fun b b' => b.resolve read = .ok b') (items.map (CutItem.block cur loose))
      bs) :
    ∃ items' : List CutItem, items'.map CutItem.scan = items.map CutItem.scan ∧
      bs = items'.map (CutItem.block cur loose) ∧ ∀ i ∈ items', i.IsCut cur := by
  induction items generalizing bs with
  | nil =>
    rw [List.map_nil, List.forall₂_nil_left_iff] at h
    exact ⟨[], rfl, h, hitems⟩
  | cons i items ih =>
    obtain ⟨hi, hitems⟩ := List.forall_mem_cons.1 hitems
    obtain ⟨b', bs', hb', hbs', rfl⟩ := List.forall₂_cons_left_iff.1 h
    obtain ⟨items', hscans, rfl, hitems'⟩ := ih hitems hbs'
    rw [CutItem.block, Block.resolve] at hb'
    obtain ⟨kids, hkids, rfl⟩ := exists_of_map_ok hb'
    obtain ⟨parts, rfl, htext, habut, hcut⟩ :=
      exists_parts_of_resolve (Block.resolveAll_forall₂ hkids)
    refine ⟨⟨i.scan, parts⟩ :: items', ?_, rfl, List.forall_mem_cons.2 ⟨?_, hitems'⟩⟩
    · rw [List.map_cons, List.map_cons, hscans]
    · exact ⟨htext.trans hi.text, habut _ hi.abut, hcut hi.parts⟩

/-- A completed list stands where the list was scanned for. -/
lemma Block.IsListAt.resolve {cur : Cursor} {loose : Bool} {items : List CutItem} {b b' : Block}
    (hb : b.IsListAt cur loose items) (h : b.resolve read = .ok b') :
    ∃ items', b'.IsListAt cur loose items' := by
  obtain ⟨marker, scan, length, hscan, hitems, hloose, rfl⟩ := hb.exists_scan
  rw [Block.resolve] at h
  obtain ⟨bs, hbs, rfl⟩ := exists_of_map_ok h
  obtain ⟨items', hscans, rfl, hcut⟩ :=
    exists_cuts_of_resolve hb.items (Block.resolveAll_forall₂ hbs)
  exact ⟨items', ⟨marker, scan, length, hscan, hitems.trans hscans.symm, hloose, rfl⟩, hcut⟩

end Resolve

/-! ## Documents -/

/-- Every list of a document was scanned for at a place within the text. -/
lemma readWith_isTraced {rules : RuleSet} (hrules : rules.IsStandard) (hskips : rules.SkipsBlank)
    {defs : Definitions} {scope : Scope} {text : Text} {root : Block}
    (h : (readWith rules defs scope text).1 = .ok root) : root.IsTraced text Point.start := by
  obtain ⟨bs, -, hbs, -, -⟩ := readWith_ok h
  obtain ⟨bs', hbs', hresolve⟩ := exists_of_readWith h
  obtain rfl : bs' = bs := hbs'.symm.trans (Run.tokens_of_toExcept hbs).2
  have hscan : (Block.ofDocument text bs').IsTraced text Point.start :=
    .of_node (by decide) (scanBlocks_traces hrules hskips _ _ _ _ hbs).2
  -- each list is the completion of a list of the first pass
  intro n' hn' hlist
  obtain ⟨above, hn'⟩ := Block.mem_nodes_iff.1 hn'
  obtain ⟨n, hn, hres⟩ := hn'.of_resolve hresolve
  have hkind : n.kind = .list := by
    cases n' with
    | leaf hd c => exact absurd hlist c.kind_ne_list
    | node hd f bs =>
      obtain ⟨bs', rfl, -⟩ := Block.exists_of_resolve_node hres
      exact hlist
  obtain ⟨cur, loose, items, hcur, hat⟩ := hscan n (Block.mem_nodes_iff.2 ⟨above, hn⟩) hkind
  obtain ⟨items', hat'⟩ := hat.resolve hres
  exact ⟨cur, loose, items', hcur, hat'⟩

/-- **Lists are loose for a reason.**  In the tree of a text, in every dialect and whatever
definitions hold already, each list was scanned for at a place in the text or in the content of a
container, and the blocks of each of its items are cut off the content of the item one after the
other.  It is loose if and only if a blank line stands between two of its items, or between two
blocks of one of them, or within a block of an item, or an item starts with white space over two
lines. -/
theorem lists_are_loose_for_a_reason (f : Flavor) (defs : Definitions) (scope : Scope)
    (text : Text) :
    ∃ root, (readWith f.rules defs scope text).1 = .ok root ∧
      ∀ list ∈ root.nodes, list.kind = .list →
        ∃ cur loose items, cur.IsWithin text Point.start ∧ list.IsListAt cur loose items ∧
          (loose = true ↔ ItemsApart cur (items.map CutItem.scan) ∨
            ∃ i ∈ items, BlocksApart i.parts ∨ BlankInside i.parts ∨ StartsBlank i.text) := by
  obtain ⟨root, hroot⟩ := exists_readWith f.rules_isStandard f.rules_hasText defs scope text
  refine ⟨root, hroot, fun list hlist hkind => ?_⟩
  obtain ⟨cur, loose, items, hcur, hat⟩ :=
    readWith_isTraced f.rules_isStandard f.rules_skipsBlank hroot list hlist hkind
  exact ⟨cur, loose, items, hcur, hat, hat.loose_iff⟩

/-! ## A blank line in a nested list -/

/-- Two blocks are not apart if the first of them is one line. -/
lemma not_blocksApart_pair {b next : Part} (h : b.text.count '\n' ≤ 1) :
    ¬ BlocksApart [b, next] := by
  rintro ⟨before, b', gaps, next', after, hparts, -, -, -, behind, hline, -⟩
  have hlength := congrArg List.length hparts
  simp only [List.length_append, List.length_cons, List.length_nil] at hlength
  obtain rfl : before = [] := List.length_eq_zero_iff.1 (by omega)
  obtain rfl : gaps = [] := List.length_eq_zero_iff.1 (by omega)
  obtain ⟨rfl, -⟩ := List.cons.inj hparts
  have hcount := hline.two_le_count
  simp only [List.flatMap_nil, List.append_nil] at hcount
  omega

/-- A list in a list, with a blank line between two blocks of the inner one. -/
def nestedGap : Text := "- a\n  - b\n\n    c\n".toList

/-- One character between two points, in a block that ends at a third. -/
def oneLetter (c : Char) (start next stop : Point) : Block :=
  .leaf ⟨"text", ⟨start, stop⟩⟩ (.text [.leaf ⟨"text", ⟨start, next⟩⟩ (.text [c])])

/-- The item of the outer list: a line of text, and the inner list. -/
def nestedGapItem : CutItem where
  scan := ⟨bulletMarker, 0, 17, "a\n- b\n\n  c\n".toList, true⟩
  parts := [⟨oneLetter 'a' ⟨1, 1, 0⟩ ⟨1, 2, 1⟩ ⟨2, 1, 2⟩, "a\n".toList⟩,
    ⟨.node ⟨listName, ⟨⟨2, 1, 2⟩, ⟨5, 1, 11⟩⟩⟩ (.list false none true)
      [.node ⟨listName, ⟨⟨2, 1, 2⟩, ⟨5, 1, 11⟩⟩⟩ (.listItem none true)
        [oneLetter 'b' ⟨2, 1, 2⟩ ⟨2, 2, 3⟩ ⟨4, 1, 5⟩,
          oneLetter 'c' ⟨4, 1, 5⟩ ⟨4, 2, 6⟩ ⟨5, 1, 7⟩]], "- b\n\n  c\n".toList⟩]

/-- **A blank line in a nested list.**  The outer list has one item, and no blank line stands
between the two blocks of the item; but it is loose, for the blank line in the inner list. -/
theorem nested_gap_is_loose :
    ∃ root list, (readWith Flavor.markdown.rules [] Scope.document nestedGap).1 = .ok root ∧
      list ∈ root.nodes ∧
      list.IsListAt (Cursor.ofText nestedGap Point.start) true [nestedGapItem] ∧
      ¬ ItemsApart (Cursor.ofText nestedGap Point.start) [nestedGapItem.scan] ∧
      ¬ BlocksApart nestedGapItem.parts := by
  let cur := Cursor.ofText nestedGap Point.start
  let list : Block := .node ⟨listName, cur.spanOf 17⟩ (.list false none true)
    [nestedGapItem.block cur true]
  have hread : (readWith Flavor.markdown.rules [] Scope.document nestedGap).1 =
      .ok (Block.ofDocument nestedGap [list]) := by cbv
  have hscan : listScan? (lines nestedGap) =
      some (bulletMarker, ⟨[nestedGapItem.scan], false⟩) := by cbv
  have hcut : nestedGapItem.IsCut cur := by
    refine ⟨rfl, ⟨rfl, rfl, trivial⟩, ?_⟩
    rw [nestedGapItem, List.forall_mem_cons, List.forall_mem_singleton]
    exact ⟨⟨by decide, by decide, by decide⟩, by decide, by decide, by decide⟩
  refine ⟨_, list, hread, ?_, ⟨⟨bulletMarker, _, 17, hscan, rfl, rfl, rfl⟩, ?_⟩, ?_,
    not_blocksApart_pair (by decide)⟩
  · exact Block.mem_nodes_iff.2 ⟨_, .child List.mem_cons_self (.self _)⟩
  · exact List.forall_mem_singleton.2 hcut
  · rintro ⟨a, b, hab, -⟩
    have hlength := hab.length_le
    simp at hlength

end Docmark
