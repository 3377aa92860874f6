import Mathlib
import Docmark.Proofs.Container.Layout
import Docmark.Proofs.Extent.Pending
import Docmark.Proofs.Reading.QuoteMarks
import Docmark.Proofs.Reading.Tiling

/-!
# Spans nest

What stands inside a token lies in the token's span, and what stands next to each other in a tree
lies next to each other in the source.  The texts that containers and pending blocks hand on are
rebuilt, so their inlines need not stand where their spans say; but a rebuilt text has no more bytes
than the source it is made from, and this is all that the order of spans takes.

`InOrder` is the form in which the readings carry the property, `Span.Holds` the one in which the
main result states it.

## Main results

* `spans_nest` — the spans in a tree nest, in the order of the source, and the items of a list reach
  from its start to its end.
-/

namespace Docmark

/-! ## Spans in a span -/

/-- Spans lie in another one, in source order and without overlap. -/
structure Span.Holds (s : Span) (ss : List Span) : Prop where
  within : ∀ s' ∈ ss, s.start.offset ≤ s'.start.offset ∧ s'.start.offset ≤ s'.stop.offset ∧
    s'.stop.offset ≤ s.stop.offset
  ordered : ss.Pairwise fun before behind => before.stop.offset ≤ behind.start.offset

lemma InOrder.within {p q : Nat} {ss : List Span} (h : InOrder p ss q) :
    ∀ s ∈ ss, p ≤ s.start.offset ∧ s.start.offset ≤ s.stop.offset ∧ s.stop.offset ≤ q := by
  induction ss generalizing p with
  | nil => simp
  | cons s ss ih =>
    obtain ⟨hp, hs, hss⟩ := h
    refine List.forall_mem_cons.2 ⟨⟨hp, hs, hss.le⟩, fun s' hs' => ?_⟩
    obtain ⟨hstart, hforward, hstop⟩ := ih hss s' hs'
    exact ⟨by omega, hforward, hstop⟩

lemma InOrder.pairwise {p q : Nat} {ss : List Span} (h : InOrder p ss q) :
    ss.Pairwise fun before behind => before.stop.offset ≤ behind.start.offset := by
  induction ss generalizing p with
  | nil => exact .nil
  | cons s ss ih => exact .cons (fun s' hs' => (h.2.2.within s' hs').1) (ih h.2.2)

lemma InOrder.holds {s : Span} {ss : List Span} (h : InOrder s.start.offset ss s.stop.offset) :
    s.Holds ss := ⟨h.within, h.pairwise⟩

/-- What tiles a text is in order. -/
lemma Tiles.inOrder {p q : Point} {ss : List Span} (h : Tiles p ss q) :
    InOrder p.offset ss q.offset := by
  induction ss generalizing p with
  | nil => exact (congrArg Point.offset h).le
  | cons s ss ih =>
    obtain ⟨rfl, hlength, hss⟩ := h
    have hforward : s.start.offset ≤ s.stop.offset := by
      rw [Span.length] at hlength
      omega
    exact ⟨le_rfl, hforward, ih hss⟩

/-! ## Inlines -/

/-- The tokens in a token lie in it in order. -/
def Inline.IsOrdered (t : Inline) : Prop :=
  InOrder t.span.start.offset (t.children.map Inline.span) t.span.stop.offset

/-- A reader whose tokens lie in order in the text that it reads, and whatever is in them too. -/
def InlineReader.Orders (read : InlineReader) : Prop :=
  ∀ scope text origin ts, read scope text origin = .ok ts →
    InOrder origin.offset (ts.map Inline.span) (origin.offset + byteLength text) ∧
      ∀ t ∈ ts, ∀ u ∈ t.nodes, u.IsOrdered

/-- The tokens of a frame are read from a stretch of what its construct has taken, from its own
place. -/
def Encloses (nest : Option InlineReader) (cur : Cursor) (taken : Text) (ts : List Inline) : Prop :=
  ∃ read scope before content, nest = some read ∧ before ++ content <+: taken ∧
    read scope content (cur.point.advance before) = .ok ts

section Content

variable {nest : Option InlineReader} {scope : Scope} {cur : Cursor} {m : Found Inline.Body}
  {frame : Inline.Frame} {ts : List Inline}

lemma encloses_of_split {read : InlineReader} {scope : Scope} {opening content after : Text}
    {size length : Nat} (hnest : nest = some read) (hrest : cur.rest = opening ++ content ++ after)
    (hsize : opening.length = size) (hlength : size + content.length ≤ length)
    (hts : read scope content (cur.pointAt size) = .ok ts) :
    Encloses nest cur (cur.rest.take length) ts := by
  rw [pointAt_of_split hrest hsize] at hts
  refine ⟨read, scope, opening, content, hnest, List.prefix_take_iff.2 ⟨?_, ?_⟩, hts⟩
  · exact ⟨after, hrest.symm⟩
  · rw [List.length_append, hsize]
    exact hlength

lemma InlineConstruct.recognize_encloses {defs : Definitions} {c : InlineConstruct}
    (h : c.recognize defs nest scope cur = .ok (some m)) (hvalue : m.value = .node frame ts) :
    Encloses nest cur (cur.rest.take m.length) ts := by
  rcases c.recognize_cases h with
    ⟨l, hleaf, -⟩ | ⟨target, -, hlink⟩ | ⟨frame', size, content, -, -, hbetween, hframed⟩
  · rw [hleaf] at hvalue
    cases hvalue
  · obtain ⟨l, d, hl, -, rfl | ⟨read, ts', hread, -, hts, rfl⟩⟩ := exists_of_linkVia hlink
    · cases hvalue
    · cases hvalue
      obtain ⟨opening, after, hrest, hsize⟩ := label?_hasSlice hl
      refine encloses_of_split hread hrest hsize ?_ hts
      simp only [Label.length]
      omega
  · obtain ⟨read, text, ts', hread, htext, hts, rfl⟩ := exists_of_framed hframed
    cases hvalue
    obtain ⟨opening, after, hrest, hsize⟩ := (hbetween text htext).hasSlice
    refine encloses_of_split hread hrest hsize ?_ hts
    simp only
    omega

/-- What a construct makes is in order, if what it reads inside is. -/
lemma InlineConstruct.recognize_isOrdered {defs : Definitions} {c : InlineConstruct} {name : String}
    (hnest : ∀ read, nest = some read → read.Orders)
    (h : c.recognize defs nest scope cur = .ok (some m)) :
    ∀ u ∈ (Inline.ofBody ⟨name, cur.spanOf m.length⟩ m.value).nodes, u.IsOrdered := by
  cases hvalue : m.value with
  | leaf l =>
    simp only [Inline.ofBody, Inline.nodes_leaf, List.mem_singleton, forall_eq]
    show cur.point.offset ≤ (cur.point.advance _).offset
    rw [Point.advance_offset]
    omega
  | node frame ts =>
    obtain ⟨read, scope', before, content, hread, htaken, hts⟩ := recognize_encloses h hvalue
    obtain ⟨horder, hnodes⟩ := hnest read hread _ _ _ _ hts
    have hbytes := byteLength_le_of_sublist htaken.sublist
    rw [byteLength_append] at hbytes
    refine Inline.forall_nodes_node.2 ⟨?_, hnodes⟩
    show InOrder cur.point.offset (ts.map Inline.span) (cur.point.advance _).offset
    rw [Point.advance_offset] at horder ⊢
    exact (horder.mono_left (Nat.le_add_right _ _)).mono_right (by omega)

end Content

/-- Inline tokens are in order at every level. -/
lemma readInlines_orders {rules : RuleSet} (hrules : rules.IsStandard) (defs : Definitions) :
    (readInlines rules defs).Orders := by
  have hstep (nest : Option InlineReader) (hnest : ∀ read, nest = some read → read.Orders) :
      InlineReader.Orders (runInlines rules defs nest) := by
    intro scope text origin ts h
    refine ⟨?_, runInlines_tokens hrules (fun cur c found _ hfound => ?_) h⟩
    · rw [← Point.advance_offset]
      exact (runInlines_tiles hrules h).inOrder
    · exact InlineConstruct.recognize_isOrdered hnest hfound
  intro scope
  exact inlinesAt_induction (P := InlineReader.Orders) hstep scope.budget scope

/-! ## Blocks -/

/-- What stands in a block lies in it in order, and there is room in it for the inlines that are
still to be read.  The items of a list reach from end to end. -/
structure Block.IsOrdered (b : Block) : Prop where
  children : InOrder b.span.start.offset (b.children.map Block.span) b.span.stop.offset
  inlines : ∀ ts ∈ b.inlines,
    InOrder b.span.start.offset (ts.map Inline.span) b.span.stop.offset
  pending : ∀ hd p, b = .leaf hd (.pending p) → ∀ text ∈ p.texts,
    hd.span.start.offset ≤ p.origin.offset ∧
      p.origin.offset + byteLength text ≤ hd.span.stop.offset
  list : b.kind = .list → ∃ first last, (b.children.map Block.span).head? = some first ∧
    (b.children.map Block.span).getLast? = some last ∧ first.start = b.span.start ∧
      last.stop = b.span.stop

/-- Blocks between two offsets in order, and whatever is in them. -/
def AreOrdered (p : Nat) (bs : List Block) (q : Nat) : Prop :=
  InOrder p (bs.map Block.span) q ∧ ∀ b ∈ bs, ∀ n ∈ b.nodes, n.IsOrdered

/-- A reader whose blocks are in order in the text that it reads. -/
def BlockReader.Orders (read : BlockReader) : Prop :=
  ∀ scope text origin bs, read scope text origin = .ok bs →
    AreOrdered origin.offset bs (origin.offset + byteLength text)

/-- A frame that is no list is in order if its blocks are. -/
lemma Block.isOrdered_node {hd : Head} {f : Block.Frame} {bs : List Block} (hf : f.kind ≠ .list)
    (h : InOrder hd.span.start.offset (bs.map Block.span) hd.span.stop.offset) :
    (Block.node hd f bs).IsOrdered where
  children := h
  inlines := by simp [Block.inlines]
  pending := nofun
  list hlist := absurd hlist hf

namespace AreOrdered

variable {p q : Nat} {b c grown : Block} {bs : List Block}

lemma cons_iff : AreOrdered p (b :: bs) q ↔
    (p ≤ b.span.start.offset ∧ b.span.start.offset ≤ b.span.stop.offset ∧
      ∀ n ∈ b.nodes, n.IsOrdered) ∧ AreOrdered b.span.stop.offset bs q := by
  simp only [AreOrdered, List.map_cons, inOrder_cons, List.forall_mem_cons]
  tauto

/-- A callout that takes in the block behind it stays in order, for it then ends with the block. -/
lemma grow (hgrown : appendToCallout? c b = some grown) (h : AreOrdered p (c :: b :: bs) q) :
    AreOrdered p (grown :: bs) q := by
  obtain ⟨⟨hp, hc, hcnodes⟩, h⟩ := cons_iff.1 h
  obtain ⟨⟨hcb, hb, hbnodes⟩, hbs⟩ := cons_iff.1 h
  obtain ⟨hd, f, kids, rfl, hf, rfl⟩ := exists_of_appendToCallout? hgrown
  obtain ⟨hself, hkids⟩ := Block.forall_nodes_node.1 hcnodes
  refine cons_iff.2 ⟨⟨hp, hc.trans (hcb.trans hb), Block.forall_nodes_node.2 ⟨?_, ?_⟩⟩, hbs⟩
  · refine Block.isOrdered_node (Block.Frame.kind_ne_list_of_gathers hf) ?_
    rw [List.map_append]
    exact hself.children.append ⟨hcb, hb, le_rfl⟩
  · intro d hd
    rcases List.mem_append.1 hd with hd | hd
    · exact hkids d hd
    · rw [List.mem_singleton.1 hd]
      exact hbnodes

/-- Grouping callouts keeps the order. -/
lemma group (h : AreOrdered p bs q) : AreOrdered p (groupCallouts bs) q := by
  have hafter (last : Block) (bs : List Block) (p : Nat) (h : AreOrdered p (last :: bs) q) :
      AreOrdered p (groupAfter last bs) q := by
    induction bs generalizing last p with
    | nil => exact h
    | cons b bs ih =>
      simp only [groupAfter]
      split
      next grown hgrown =>
        split at hgrown
        · cases hgrown
        · exact ih grown p (h.grow hgrown)
      next =>
        obtain ⟨hlast, hbs⟩ := cons_iff.1 h
        exact cons_iff.2 ⟨hlast, ih b _ hbs⟩
  cases bs with
  | nil => exact h
  | cons b bs => exact hafter b bs p h

end AreOrdered

section Construct

variable {read : BlockReader} {nest : Option BlockReader} {scope : Scope} {cur : Cursor}
  {m : Found Block.Body} {name : String}

/-- What is quoted has no more bytes than the quote. -/
lemma byteLength_quotedText_le (quote : List Text) :
    byteLength (quotedText quote) ≤ byteLength quote.flatten := by
  refine byteLength_le_of_sublist ?_
  induction quote with
  | nil => exact List.Sublist.slnil
  | cons line quote ih => exact (quotedLine_suffix line).sublist.append ih

lemma blockquote?_isOrdered (hread : read.Orders) (h : blockquote? read scope cur = .ok (some m)) :
    ∀ n ∈ (Block.ofBody ⟨name, cur.spanOf m.length⟩ m.value).nodes, n.IsOrdered := by
  obtain ⟨-, bs, hbs, rfl⟩ := exists_of_blockquote? h
  obtain ⟨horder, hnodes⟩ := (hread _ _ _ _ hbs).group
  have hbytes := byteLength_quotedText_le (quoteLines (lines cur.rest))
  have htake := List.prefix_iff_eq_take.1 (flatten_initial (quoteLines_initial (lines cur.rest)))
  refine Block.forall_nodes_node.2 ⟨Block.isOrdered_node nofun ?_, hnodes⟩
  show InOrder cur.point.offset _ (cur.point.advance (cur.rest.take _)).offset
  rw [← htake, Point.advance_offset]
  exact horder.mono_right (Nat.add_le_add_left hbytes _)

/-- A list ends where its last item ends. -/
lemma list?_length {marker : ListMarker} {scan : ListScan} {last : ItemScan}
    (h : list? read scope cur = .ok (some m))
    (hscan : listScan? (lines cur.rest) = some (marker, scan))
    (hlast : scan.items.getLast? = some last) : m.length = last.stop := by
  simp only [list?, hscan, hlast] at h
  split at h
  next => cases h
  next =>
    cases h
    rfl

lemma span_of_readItem {loose : Bool} {item : ItemScan} {b : Block}
    (h : readItem read scope cur loose item = .ok b) : b.span = item.spanIn cur := by
  simp only [readItem] at h
  split at h
  next => cases h
  next =>
    cases h
    rfl

lemma readItem_isOrdered (hread : read.Orders) {loose : Bool} {item : ItemScan} {b : Block}
    (hbytes : (item.spanIn cur).start.offset + byteLength item.content ≤
      (item.spanIn cur).stop.offset)
    (h : readItem read scope cur loose item = .ok b) : ∀ n ∈ b.nodes, n.IsOrdered := by
  have hspan := span_of_readItem h
  obtain ⟨hd, bs, hbs, rfl⟩ := exists_of_readItem h
  obtain ⟨horder, hnodes⟩ := hread _ _ _ _ hbs
  -- the box of a task is not read, so what is read is shorter than what the item holds
  have htask := byteLength_le_of_sublist (splitTask_suffix item.content).sublist
  refine Block.forall_nodes_node.2 ⟨Block.isOrdered_node nofun ?_, hnodes⟩
  have hhead : hd.span = item.spanIn cur := hspan
  rw [hhead]
  exact horder.mono_right (by
    show (item.spanIn cur).start.offset + _ ≤ _
    omega)

lemma spans_of_readItems {loose : Bool} {scans : List ItemScan} {items : List Block}
    (h : List.Forall₂ (fun item b => readItem read scope cur loose item = .ok b) scans items) :
    items.map Block.span = scans.map (ItemScan.spanIn cur) := by
  have heq : List.Forall₂ Eq (scans.map (ItemScan.spanIn cur)) (items.map Block.span) :=
    List.forall₂_map_left_iff.2 (List.forall₂_map_right_iff.2
      (h.imp fun _ _ hitem => (span_of_readItem hitem).symm))
  rw [List.forall₂_eq_eq_eq] at heq
  exact heq.symm

lemma list?_isOrdered (hread : read.Orders) (h : list? read scope cur = .ok (some m)) :
    ∀ n ∈ (Block.ofBody ⟨name, cur.spanOf m.length⟩ m.value).nodes, n.IsOrdered := by
  obtain ⟨marker, scan, items, hscan, hitems, hvalue⟩ := exists_of_list? h
  have hlaid : LaidOut ([] : Text).length scan.items cur.rest := listScan?_laidOut hscan
  have hspans := spans_of_readItems hitems
  obtain ⟨last, hlast, -⟩ := listScan?_stop hscan
  obtain ⟨first, hfirst⟩ :=
    Option.isSome_iff_exists.1 (List.isSome_head?.2 (listScan?_ne_nil hscan))
  have hstop : cur.pointAt m.length = (last.spanIn cur).stop := by
    rw [list?_length h hscan hlast]
    rfl
  have horder : InOrder cur.point.offset (items.map Block.span) (cur.pointAt m.length).offset := by
    rw [hspans, hstop]
    refine (hlaid.inOrder rfl).upTo ?_
    rw [List.getLast?_map, hlast, Option.map_some]
  rw [hvalue]
  refine Block.forall_nodes_node.2 ⟨⟨horder, by simp [Block.inlines], nofun, fun _ => ?_⟩, ?_⟩
  · refine ⟨first.spanIn cur, last.spanIn cur, ?_, ?_, ?_, hstop.symm⟩
    · show (items.map Block.span).head? = _
      rw [hspans, List.head?_map, hfirst, Option.map_some]
    · show (items.map Block.span).getLast? = _
      rw [hspans, List.getLast?_map, hlast, Option.map_some]
    · rw [ItemScan.spanIn, hlaid.start_head hfirst]
      rfl
  · intro b hb
    obtain ⟨item, hmem, hitem⟩ := exists_of_mem_forall₂ hitems b hb
    exact readItem_isOrdered hread (hlaid.content_le rfl item hmem) hitem

/-- A leaf of the first pass has no inlines yet, but room for them. -/
lemma isOrdered_leaf {c : BlockConstruct} {l : Block.Leaf}
    (h : c.recognize nest scope cur = .ok (some m)) (hl : m.value = .leaf l) :
    (Block.leaf ⟨name, cur.spanOf m.length⟩ l).IsOrdered := by
  have hnone : l.inlines = [] := (BlockConstruct.recognize_leaf h hl).2
  refine ⟨?_, ?_, ?_, ?_⟩
  · show cur.point.offset ≤ (cur.point.advance _).offset
    rw [Point.advance_offset]
    exact Nat.le_add_right _ _
  · simp [Block.inlines, hnone]
  · rintro hd p ⟨⟩
    have hfits := (BlockConstruct.recognize_pending h hl).fits
    rw [← Point.advance_offset] at hfits
    exact hfits
  · intro hlist
    have hlist : l.kind = .list := hlist
    cases l <;> cases hlist

/-- What a construct makes is in order, if what it reads inside is. -/
lemma BlockConstruct.recognize_isOrdered {c : BlockConstruct}
    (hnest : ∀ read, nest = some read → read.Orders)
    (h : c.recognize nest scope cur = .ok (some m)) :
    ∀ n ∈ (Block.ofBody ⟨name, cur.spanOf m.length⟩ m.value).nodes, n.IsOrdered := by
  rcases c.recognize_cases h with
    ⟨read, hread, hquote⟩ | ⟨read, hread, hlist⟩ | ⟨f, hvalue, hf, -⟩ | ⟨l, hvalue, -⟩
  · exact blockquote?_isOrdered (hnest read hread) hquote
  · exact list?_isOrdered (hnest read hread) hlist
  · rw [hvalue]
    -- a callout, which holds nothing until quotes are grouped
    refine Block.forall_nodes_node.2 ⟨Block.isOrdered_node ?_ ?_, by simp⟩
    · intro hlist
      cases f with
      | list ordered start loose => cases hf
      | _ => cases hlist
    · show cur.point.offset ≤ (cur.point.advance _).offset
      rw [Point.advance_offset]
      exact Nat.le_add_right _ _
  · rw [hvalue]
    simp only [Block.ofBody, Block.nodes_leaf, List.mem_singleton, forall_eq]
    exact isOrdered_leaf h hvalue

end Construct

/-- The blocks of the first pass are in order at every level. -/
lemma scanBlocks_areOrdered {rules : RuleSet} (hrules : rules.IsStandard) {scope : Scope}
    {text : Text} {origin : Point} {bs : List Block}
    (h : (scanBlocks rules scope text origin).toExcept = .ok bs) :
    AreOrdered origin.offset bs (origin.offset + byteLength text) := by
  have hstep (nest : Option BlockReader) (hnest : ∀ read, nest = some read → read.Orders) :
      BlockReader.Orders fun scope text origin =>
        (runBlocks rules nest scope text origin).toExcept := by
    intro scope text origin bs h
    constructor
    · rw [← Point.advance_offset]
      exact (runBlocks_tiles hrules h).inOrder
    · obtain ⟨-, rfl⟩ := Run.tokens_of_toExcept h
      exact runBlocks_tokens (P := fun _ b => ∀ n ∈ b.nodes, n.IsOrdered) hrules
        (fun cur c found _ hfound => BlockConstruct.recognize_isOrdered hnest hfound) text origin
  exact hstep _ (fun read => nestedBlocks_induction hstep) _ _ _ _ h

/-! ## The gaps of a list -/

/-- Between the items of a list there are only blank lines. -/
lemma list?_blankBetween {read : BlockReader} {scope : Scope} {cur : Cursor}
    {m : Found Block.Body} (h : list? read scope cur = .ok (some m)) :
    ∃ f items, m.value = .node f items ∧
      (items.map Block.span).IsChain fun s next => BlankBetween cur.rest cur.point s.stop
        next.start := by
  obtain ⟨marker, scan, items, hscan, hitems, hvalue⟩ := exists_of_list? h
  have hlaid : LaidOut ([] : Text).length scan.items cur.rest := listScan?_laidOut hscan
  refine ⟨_, items, hvalue, ?_⟩
  rw [spans_of_readItems hitems]
  exact hlaid.blankBetween rfl

lemma Cursor.IsIn.blankBetween {cur : Cursor} {text : Text} {origin p q : Point}
    (hcur : cur.IsIn text origin) (h : BlankBetween cur.rest cur.point p q) :
    BlankBetween text origin p q := by
  obtain ⟨passed, htext, hpoint⟩ := hcur
  obtain ⟨before, gap, after, hrest, rfl, rfl, hend, hgap⟩ := h
  refine ⟨passed ++ before, gap, after, ?_, ?_, ?_, ?_, hgap⟩
  · rw [htext, hrest]
    simp only [List.append_assoc]
  · rw [hpoint, Point.advance_append]
  · rw [hpoint, List.append_assoc, Point.advance_append origin]
  · rw [List.getLast?_append, hend, Option.some_or]

/-- Between the items of a list of the text itself there are only blank lines of the text. -/
lemma scanBlocks_blankBetween {rules : RuleSet} (hrules : rules.IsStandard) {scope : Scope}
    {text : Text} {origin : Point} {b : Block}
    (hb : b ∈ (scanBlocks rules scope text origin).tokens) (hlist : b.kind = .list) :
    (b.children.map Block.span).IsChain fun s next => BlankBetween text origin s.stop
      next.start := by
  obtain ⟨cur, c, found, hcur, hfound, rfl⟩ := runBlocks_places hrules _ scope text origin b hb
  have hmade : c.made = .list := (BlockConstruct.recognize_kind hfound).symm.trans hlist
  cases c with
  | list =>
    cases hnest : nestedBlocks rules scope with
    | none =>
      rw [hnest] at hfound
      cases hfound
    | some read =>
      rw [hnest] at hfound
      obtain ⟨f, items, hvalue, hchain⟩ := list?_blankBetween hfound
      rw [hvalue]
      exact hchain.imp fun _ _ => hcur.blankBetween
  | _ => cases hmade

/-! ## The second pass -/

namespace Block

variable {read : InlineReader}

lemma map_span_of_resolve {bs bs' : List Block}
    (h : List.Forall₂ (fun b b' => b.resolve read = .ok b') bs bs') :
    bs'.map Block.span = bs.map Block.span := by
  induction h with
  | nil => rfl
  | cons hres _ ih => rw [List.map_cons, List.map_cons, ih, span, head_resolve hres, span]

/-- Completing a block that is in order leaves it in order: its inlines take up the room that was
left to them. -/
lemma IsOrdered.resolve (hread : read.Orders) {b b' : Block} (hb : b.IsOrdered)
    (h : b.resolve read = .ok b') : b'.IsOrdered := by
  cases b' with
  | leaf hd l =>
    obtain ⟨p, rfl, hcomplete⟩ | ⟨rfl, -⟩ := exists_of_resolve_leaf h
    · have hkind := (Pending.complete_leaf hcomplete).1
      refine ⟨hb.children, fun ts hts => ?_, ?_, fun hlist => ?_⟩
      · obtain ⟨text, htext, hts⟩ :=
          exists_of_mem_forall₂ (Pending.complete_texts hcomplete) ts hts
        obtain ⟨hstart, hstop⟩ := hb.pending hd p rfl text htext
        exact ((hread _ _ _ _ hts).1.mono_left hstart).mono_right hstop
      · rintro hd' p' ⟨⟩
        simp [Block.Leaf.kind] at hkind
      · have hlist : l.kind = .list := hlist
        rw [hlist] at hkind
        exact absurd hkind (by decide)
    · exact hb
  | node hd f bs' =>
    obtain ⟨bs, rfl, hbs⟩ := exists_of_resolve_node h
    have hspans := map_span_of_resolve hbs
    refine ⟨?_, by simp [Block.inlines], ?_, fun hlist => ?_⟩
    · show InOrder _ (bs'.map Block.span) _
      rw [hspans]
      exact hb.children
    · rintro _ _ ⟨⟩
    · show ∃ first last, (bs'.map Block.span).head? = _ ∧ (bs'.map Block.span).getLast? = _ ∧ _
      rw [hspans]
      exact hb.list hlist

end Block

/-! ## Documents -/

section Document

variable {rules : RuleSet} (hrules : rules.IsStandard) {defs : Definitions} {scope : Scope}
  {text : Text} {root : Block} (h : (readWith rules defs scope text).1 = .ok root)

include hrules h

/-- The blocks of a document are in order at every level. -/
lemma readWith_isOrdered : ∀ n ∈ root.nodes, n.IsOrdered := by
  obtain ⟨bs, -, hbs, -, -⟩ := readWith_ok h
  obtain ⟨bs', hbs', hresolve⟩ := exists_of_readWith h
  obtain rfl : bs' = bs := hbs'.symm.trans (Run.tokens_of_toExcept hbs).2
  obtain ⟨horder, hinside⟩ := scanBlocks_areOrdered hrules hbs
  have hscan : ∀ n ∈ (Block.ofDocument text bs').nodes, n.IsOrdered := by
    refine Block.forall_nodes_node.2 ⟨Block.isOrdered_node (by decide) ?_, hinside⟩
    rw [← Point.advance_offset] at horder
    exact horder
  -- each block is the completion of a block of the first pass
  intro n' hn'
  obtain ⟨above, hn'⟩ := Block.mem_nodes_iff.1 hn'
  obtain ⟨n, hn, hres⟩ := hn'.of_resolve hresolve
  exact (hscan n (Block.mem_nodes_iff.2 ⟨above, hn⟩)).resolve (readInlines_orders hrules _) hres

/-- The inline tokens of a document are in order at every level. -/
lemma readWith_inlines_isOrdered : ∀ t ∈ root.inlineNodes, t.IsOrdered := by
  intro t ht
  obtain ⟨defs', scope', text', origin, ts, hread, u, hu, htu⟩ :=
    exists_read_of_mem_inlineNodes hrules h ht
  exact (readInlines_orders hrules defs' _ _ _ _ hread).2 u hu t htu

/-- Between the items of a list at the top of a document there are only blank lines. -/
lemma readWith_blankBetween : ∀ b ∈ root.children, b.kind = .list →
    (b.children.map Block.span).IsChain fun s next =>
      BlankBetween text Point.start s.stop next.start := by
  intro b' hb' hlist
  obtain ⟨bs, bs', hbs, hbs', rfl⟩ := readWith_ok h
  obtain ⟨b, hb, hres⟩ := exists_of_mem_forall₂ (Block.resolveAll_forall₂ hbs') b' hb'
  rw [← (Run.tokens_of_toExcept hbs).2] at hb
  cases b' with
  | leaf hd l => cases l <;> cases hlist
  | node hd f' kids =>
    obtain ⟨kids', rfl, hkids⟩ := Block.exists_of_resolve_node hres
    show (kids.map Block.span).IsChain _
    rw [Block.map_span_of_resolve hkids]
    exact scanBlocks_blankBetween hrules hb hlist

end Document

/-- **Spans nest.**  In the tree of a text, in every dialect and whatever definitions hold already,
no token ends before it starts; the blocks and the inlines inside a token, those of each cell of a
table included, lie in its span in source order and without overlap.  A list starts with its first
item and ends with its last one, and where it stands at the top of the document only blank lines lie
between one item and the next. -/
theorem spans_nest (f : Flavor) (defs : Definitions) (scope : Scope) (text : Text) :
    ∃ root, (readWith f.rules defs scope text).1 = .ok root ∧
      (∀ b ∈ root.nodes, b.span.start.offset ≤ b.span.stop.offset ∧
        b.span.Holds (b.children.map Block.span) ∧
          ∀ ts ∈ b.inlines, b.span.Holds (ts.map Inline.span)) ∧
      (∀ t ∈ root.inlineNodes, t.span.start.offset ≤ t.span.stop.offset ∧
        t.span.Holds (t.children.map Inline.span)) ∧
      (∀ b ∈ root.nodes, b.kind = .list → ∃ first last,
        (b.children.map Block.span).head? = some first ∧
          (b.children.map Block.span).getLast? = some last ∧
            first.start = b.span.start ∧ last.stop = b.span.stop) ∧
      ∀ b ∈ root.children, b.kind = .list →
        (b.children.map Block.span).IsChain fun s next =>
          BlankBetween text Point.start s.stop next.start := by
  have hrules := f.rules_isStandard
  obtain ⟨root, hroot⟩ := exists_readWith hrules f.rules_hasText defs scope text
  have hblocks := readWith_isOrdered hrules hroot
  have hinlines := readWith_inlines_isOrdered hrules hroot
  refine ⟨root, hroot, fun b hb => ?_, fun t ht => ⟨(hinlines t ht).le, (hinlines t ht).holds⟩,
    fun b hb => (hblocks b hb).list, readWith_blankBetween hrules hroot⟩
  have hchildren := (hblocks b hb).children
  exact ⟨hchildren.le, hchildren.holds, fun ts hts => ((hblocks b hb).inlines ts hts).holds⟩

end Docmark
