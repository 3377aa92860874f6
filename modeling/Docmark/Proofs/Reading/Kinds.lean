import Mathlib
import Docmark.Proofs.Reading.Step
import Docmark.Proofs.Token.Nodes

/-!
# The kinds of tokens that a reading makes

The first pass makes no leaf with inline content; it leaves a pending block in place of each, with a
form that the second pass can complete (`scanBlocks_isScanned`).  The second pass leaves no pending
block (`Block.resolve_isRead`).  Neither makes a document, an included tree or source text shown as
it stands: those come from the root and from the expansion of directives only.
-/

namespace Docmark

/-! ## The first pass -/

/-- A leaf as the block rules make it. -/
def Block.Leaf.IsScanned : Block.Leaf → Prop
  | .pending p => p.form ≠ .unfinished
  | l => l.kind ∉ [.heading, .paragraph, .text, .table, .raw]

/-- A frame as the block rules make it. -/
def Block.Frame.IsScanned (f : Block.Frame) : Prop := f.kind ∉ [.document, .included]

/-- A block that is itself as the block rules make it, whatever is inside it. -/
def Block.IsScanned : Block → Prop
  | .leaf _ content => content.IsScanned
  | .node _ frame _ => frame.IsScanned

section Leaf

variable {scope : Scope} {cur : Cursor} {m : Found Block.Leaf}

lemma heading?_isScanned {style : HeadingStyle} {level : Option Nat}
    (h : heading? style level scope cur = some m) : m.value.IsScanned := by
  obtain ⟨hd, -, rfl⟩ := exists_of_heading? h
  simp [Block.Leaf.IsScanned]

lemma underlinedHeading?_isScanned (h : underlinedHeading? scope cur = some m) :
    m.value.IsScanned := by
  obtain ⟨c, below, depth, -, -, rfl⟩ := exists_of_underlinedHeading? h
  simp [Block.Leaf.IsScanned]

lemma paragraph?_isScanned (h : paragraph? scope cur = some m) : m.value.IsScanned := by
  obtain ⟨-, -, rfl⟩ := paragraph?_eq_some h
  simp [paragraphBlock, Block.Leaf.IsScanned]

lemma anyText_isScanned : (anyText scope cur).value.IsScanned := by
  simp [anyText, paragraphBlock, Block.Leaf.IsScanned]

lemma table?_isScanned (h : table? scope cur = some m) : m.value.IsScanned := by
  obtain ⟨header, dashed, body, -, -, rfl⟩ := exists_of_table? h
  simp [Block.Leaf.IsScanned]

end Leaf

/-! ### Callouts -/

lemma note?_value {scope : Scope} {cs : Text} {m : Found Block.Body} (h : note? scope cs = some m) :
    ∃ kind ∈ noteKinds, m.value = .node (.note (upperAscii kind.toList)) [] := by
  simp only [note?] at h
  split at h
  next => cases h
  next =>
    obtain ⟨kind, hkind, h⟩ := List.exists_of_findSome?_eq_some h
    split at h
    next =>
      obtain ⟨left, -, rfl⟩ := Option.map_eq_some_iff.1 h
      exact ⟨kind, hkind, rfl⟩
    next => cases h

lemma division?_value {scope : Scope} {cs : Text} {m : Found Block.Body}
    (h : division? scope cs = some m) :
    ∃ attributes, m.value = .node (.division attributes) [] := by
  simp only [division?] at h
  split at h
  next => cases h
  next =>
    split at h
    next => cases h
    next =>
      split at h
      next =>
        obtain ⟨left, -, rfl⟩ := Option.map_eq_some_iff.1 h
        exact ⟨_, rfl⟩
      next => cases h

lemma video?_value {scope : Scope} {cs : Text} {m : Found Block.Body}
    (h : video? scope cs = some m) : ∃ url, m.value = .leaf (.video url) := by
  simp only [video?] at h
  split at h
  next => cases h
  next =>
    split at h
    next => cases h
    next =>
      split at h
      next => cases h
      next =>
        split at h
        next =>
          obtain ⟨left, -, rfl⟩ := Option.map_eq_some_iff.1 h
          exact ⟨_, rfl⟩
        next => cases h

/-! ### Containers -/

/-- Whether a frame gathers the blocks that follow its marker. -/
def Block.Frame.gathers : Block.Frame → Bool
  | .note _ | .division _ => true
  | _ => false

lemma Block.Frame.kind_ne_list_of_gathers {f : Block.Frame} (h : f.gathers = true) :
    f.kind ≠ .list := by
  cases f with
  | list => cases h
  | _ => simp [Block.Frame.kind]

/-- A block that gathers another becomes the same frame around one more block, and ends where that
block ends. -/
lemma exists_of_appendToCallout? {callout b grown : Block}
    (h : appendToCallout? callout b = some grown) :
    ∃ hd f kids, callout = .node hd f kids ∧ f.gathers = true ∧
      grown = .node { hd with span := ⟨hd.span.start, b.span.stop⟩ } f (kids ++ [b]) := by
  simp only [appendToCallout?] at h
  split at h
  next =>
    cases h
    exact ⟨_, _, _, rfl, rfl, rfl⟩
  next =>
    cases h
    exact ⟨_, _, _, rfl, rfl, rfl⟩
  next => cases h

/-- Growing a callout by a block keeps what holds of the nodes of both. -/
lemma appendToCallout?_nodes {P : Block → Prop}
    (hP : ∀ h h' f bs bs', P (.node h f bs) → P (.node h' f bs')) {callout b grown : Block}
    (h : appendToCallout? callout b = some grown) (hcallout : ∀ n ∈ callout.nodes, P n)
    (hb : ∀ n ∈ b.nodes, P n) : ∀ n ∈ grown.nodes, P n := by
  obtain ⟨hd, f, kids, rfl, -, rfl⟩ := exists_of_appendToCallout? h
  obtain ⟨hself, hkids⟩ := Block.forall_nodes_node.1 hcallout
  refine Block.forall_nodes_node.2 ⟨hP _ _ _ _ _ hself, ?_⟩
  intro d hd
  rcases List.mem_append.1 hd with hd | hd
  · exact hkids d hd
  · rw [List.mem_singleton.1 hd]
    exact hb

/-- What growing a callout by a block keeps, grouping keeps. -/
lemma groupCallouts_keeps {P : Block → Prop}
    (hgrow : ∀ callout b grown, appendToCallout? callout b = some grown →
      P callout → P b → P grown)
    {bs : List Block} (h : ∀ b ∈ bs, P b) : ∀ b ∈ groupCallouts bs, P b := by
  have hafter : ∀ (rest : List Block) (last : Block), P last → (∀ b ∈ rest, P b) →
      ∀ b ∈ groupAfter last rest, P b := by
    intro rest
    induction rest with
    | nil =>
      intro last hlast _ b hb
      rw [List.mem_singleton.1 hb]
      exact hlast
    | cons c rest ih =>
      intro last hlast hrest
      have hc := hrest c List.mem_cons_self
      have hrest' : ∀ b ∈ rest, P b := fun b hb => hrest b (List.mem_cons_of_mem _ hb)
      simp only [groupAfter]
      split
      next grown hgrown =>
        split at hgrown
        · cases hgrown
        · exact ih grown (hgrow last c grown hgrown hlast hc) hrest'
      next =>
        intro b hb
        rcases List.mem_cons.1 hb with rfl | hb
        · exact hlast
        · exact ih c hc hrest' b hb
  cases bs with
  | nil => simp [groupCallouts]
  | cons b bs =>
    exact hafter bs b (h b List.mem_cons_self) fun d hd => h d (List.mem_cons_of_mem _ hd)

/-- Grouping moves blocks but makes none: what holds of all nodes before holds of all after. -/
lemma groupCallouts_nodes {P : Block → Prop}
    (hP : ∀ h h' f bs bs', P (.node h f bs) → P (.node h' f bs')) {bs : List Block}
    (h : ∀ b ∈ bs, ∀ n ∈ b.nodes, P n) : ∀ b ∈ groupCallouts bs, ∀ n ∈ b.nodes, P n :=
  groupCallouts_keeps (P := fun b => ∀ n ∈ b.nodes, P n)
    (fun _ _ _ hgrown => appendToCallout?_nodes hP hgrown) h

section Container

variable {read : BlockReader} {scope : Scope} {cur : Cursor} {m : Found Block.Body}

/-- A quote covers its lines and holds the grouped blocks of the text inside them. -/
lemma exists_of_blockquote? (h : blockquote? read scope cur = .ok (some m)) :
    quoteLines (lines cur.rest) ≠ [] ∧ ∃ bs,
      read (scope.nested Scope.isBlockQuote) (quotedText (quoteLines (lines cur.rest))) cur.point =
        .ok bs ∧
      m = ⟨(quoteLines (lines cur.rest)).flatten.length, .node .blockquote (groupCallouts bs)⟩ := by
  simp only [blockquote?] at h
  split at h
  next => cases h
  next hquote =>
    split at h
    next => cases h
    next bs hbs =>
      cases h
      exact ⟨hquote, bs, hbs, rfl⟩

/-- A list holds one block for each of its items. -/
lemma exists_of_list? (h : list? read scope cur = .ok (some m)) :
    ∃ marker scan items, listScan? (lines cur.rest) = some (marker, scan) ∧
      List.Forall₂ (fun item b => readItem read scope cur scan.loose item = .ok b) scan.items
        items ∧
      m.value = .node (.list marker.ordered marker.number scan.loose) items := by
  simp only [list?] at h
  split at h
  next => cases h
  next marker scan hscan =>
    split at h
    next => cases h
    next items hitems =>
      cases h
      exact ⟨marker, scan, items, hscan, forall₂_of_mapM_ok hitems, rfl⟩

/-- An item holds the blocks of its content, without the box of a task. -/
lemma exists_of_readItem {loose : Bool} {item : ItemScan} {b : Block}
    (h : readItem read scope cur loose item = .ok b) :
    ∃ hd bs, read (scope.nested Scope.isInList) (splitTask item.content).2
        (cur.pointAt item.start) = .ok bs ∧
      b = .node hd (.listItem (splitTask item.content).1 loose) bs := by
  simp only [readItem] at h
  split at h
  next => cases h
  next bs hbs =>
    cases h
    exact ⟨_, bs, hbs, rfl⟩

/-- A list is a frame around items, and an item is a frame around blocks that the list's reader
yields. -/
lemma list?_value (h : list? read scope cur = .ok (some m)) :
    ∃ ordered start loose items, m.value = .node (.list ordered start loose) items ∧
      ∀ i ∈ items, ∃ head checked text origin bs,
        read (scope.nested Scope.isInList) text origin = .ok bs ∧
          i = .node head (.listItem checked loose) bs := by
  obtain ⟨marker, scan, items, -, hitems, hvalue⟩ := exists_of_list? h
  refine ⟨_, _, _, items, hvalue, fun i hi => ?_⟩
  obtain ⟨item, -, hitem⟩ := exists_of_mem_forall₂ hitems i hi
  obtain ⟨hd, bs, hbs, rfl⟩ := exists_of_readItem hitem
  exact ⟨hd, _, _, _, bs, hbs, rfl⟩

end Container

/-! ### All constructs -/

/-- The kind of the blocks that a construct makes in the first pass. -/
def BlockConstruct.made : BlockConstruct → BlockTag
  | newline => .newline
  | indentedCode | fences => .code
  | heading _ _ _ | underlinedHeading | table | paragraph | text => .pending
  | thematicBreak => .hr
  | blockquote => .blockquote
  | list => .list
  | html => .html
  | definition => .definition
  | directive => .directive
  | note => .note
  | division => .division
  | video => .video

lemma exists_leaf_of_ok_map {found : Option (Found Block.Leaf)} {m : Found Block.Body}
    (h : (.ok (found.map (·.map .leaf)) : Except Fault (Option (Found Block.Body))) =
      .ok (some m)) : ∃ l, m.value = .leaf l := by
  obtain ⟨x, -, rfl⟩ := Option.map_eq_some_iff.1 (Except.ok.inj h)
  exact ⟨x.value, rfl⟩

lemma kind_of_ok_map {found : Option (Found Block.Leaf)} {m : Found Block.Body} {head : Head}
    {tag : BlockTag} (hleaf : ∀ x, found = some x → x.value.kind = tag)
    (h : (.ok (found.map (·.map .leaf)) : Except Fault (Option (Found Block.Body))) =
      .ok (some m)) : (Block.ofBody head m.value).kind = tag := by
  obtain ⟨x, hx, rfl⟩ := Option.map_eq_some_iff.1 (Except.ok.inj h)
  exact hleaf x hx

/-- A construct makes blocks of its own kind only. -/
lemma BlockConstruct.recognize_kind {nest : Option BlockReader} {scope : Scope} {cur : Cursor}
    {c : BlockConstruct} {m : Found Block.Body} {head : Head}
    (h : c.recognize nest scope cur = .ok (some m)) :
    (Block.ofBody head m.value).kind = c.made := by
  cases c with
  | newline =>
    refine kind_of_ok_map (fun x hx => ?_) h
    simp only [blankLines?] at hx
    grind [Block.Leaf.kind, BlockConstruct.made]
  | indentedCode =>
    refine kind_of_ok_map (fun x hx => ?_) h
    simp only [indentedCode?] at hx
    grind [Block.Leaf.kind, BlockConstruct.made]
  | fences =>
    refine kind_of_ok_map (fun x hx => ?_) h
    simp only [fencedCode?] at hx
    grind [Block.Leaf.kind, BlockConstruct.made]
  | heading name style level =>
    refine kind_of_ok_map (fun x hx => ?_) h
    obtain ⟨hd, -, rfl⟩ := exists_of_heading? hx
    rfl
  | underlinedHeading =>
    refine kind_of_ok_map (fun x hx => ?_) h
    obtain ⟨c, below, depth, -, -, rfl⟩ := exists_of_underlinedHeading? hx
    rfl
  | thematicBreak =>
    refine kind_of_ok_map (fun x hx => ?_) h
    simp only [thematicBreak?] at hx
    grind [Block.Leaf.kind, BlockConstruct.made]
  | blockquote =>
    cases nest with
    | none => cases h
    | some read =>
      obtain ⟨-, bs, -, rfl⟩ := exists_of_blockquote? h
      rfl
  | list =>
    cases nest with
    | none => cases h
    | some read =>
      obtain ⟨ordered, start, loose, items, hvalue, -⟩ := list?_value h
      rw [hvalue]
      rfl
  | html =>
    refine kind_of_ok_map (fun x hx => ?_) h
    obtain ⟨n, -, rfl⟩ := Option.map_eq_some_iff.1 hx
    rfl
  | definition =>
    refine kind_of_ok_map (fun x hx => ?_) h
    simp only [linkDefinition?] at hx
    grind [Block.Leaf.kind, BlockConstruct.made]
  | table =>
    refine kind_of_ok_map (fun x hx => ?_) h
    obtain ⟨header, dashed, body, -, -, rfl⟩ := exists_of_table? hx
    rfl
  | paragraph =>
    refine kind_of_ok_map (fun x hx => ?_) h
    obtain ⟨-, -, rfl⟩ := paragraph?_eq_some hx
    rfl
  | text =>
    cases h
    rfl
  | directive =>
    refine kind_of_ok_map (fun x hx => ?_) h
    obtain ⟨d, -, rfl⟩ := Option.map_eq_some_iff.1 hx
    rfl
  | note =>
    obtain ⟨kind, -, hvalue⟩ := note?_value (Except.ok.inj h)
    rw [hvalue]
    rfl
  | division =>
    obtain ⟨attributes, hvalue⟩ := division?_value (Except.ok.inj h)
    rw [hvalue]
    rfl
  | video =>
    obtain ⟨url, hvalue⟩ := video?_value (Except.ok.inj h)
    rw [hvalue]
    rfl

/-- A leaf that a construct makes is of its own kind, and its inline content is still to be read. -/
lemma BlockConstruct.recognize_leaf {nest : Option BlockReader} {scope : Scope} {cur : Cursor}
    {c : BlockConstruct} {m : Found Block.Body} {l : Block.Leaf}
    (h : c.recognize nest scope cur = .ok (some m)) (hl : m.value = .leaf l) :
    l.kind = c.made ∧ l.inlines = [] := by
  have hkind : (Block.ofBody ⟨c.name, ⟨{}, {}⟩⟩ m.value).kind = c.made := recognize_kind h
  rw [hl] at hkind
  have hmade : l.kind = c.made := hkind
  refine ⟨hmade, ?_⟩
  cases l <;> first | rfl | (cases c <;> cases hmade)

lemma isScanned_of_leaf {head : Head} {l : Block.Leaf} (hl : l.IsScanned) :
    ∀ n ∈ (Block.ofBody head (.leaf l)).nodes, n.IsScanned := by
  intro n hn
  simp only [Block.ofBody, Block.nodes_leaf, List.mem_singleton] at hn
  subst hn
  exact hl

/-- A finding that becomes a leaf is as the block rules make it if its leaf is. -/
lemma isScanned_of_ok_map {found : Option (Found Block.Leaf)} {m : Found Block.Body} {head : Head}
    (hleaf : ∀ x, found = some x → x.value.IsScanned)
    (h : (.ok (found.map (·.map .leaf)) : Except Fault (Option (Found Block.Body))) =
      .ok (some m)) :
    ∀ n ∈ (Block.ofBody head m.value).nodes, n.IsScanned := by
  obtain ⟨x, hx, rfl⟩ := Option.map_eq_some_iff.1 (Except.ok.inj h)
  exact isScanned_of_leaf (hleaf x hx)

/-- Being as the block rules make it is a matter of the frame alone. -/
lemma isScanned_of_frame (h h' : Head) (f : Block.Frame) (bs bs' : List Block)
    (hf : (Block.node h f bs).IsScanned) : (Block.node h' f bs').IsScanned := hf

lemma BlockConstruct.recognize_isScanned {nest : Option BlockReader}
    (hnest : ∀ read, nest = some read →
      BlockReader.Yields read fun _ b => ∀ n ∈ b.nodes, n.IsScanned)
    {scope : Scope} {cur : Cursor} {c : BlockConstruct} {m : Found Block.Body} {head : Head}
    (h : c.recognize nest scope cur = .ok (some m)) :
    ∀ n ∈ (Block.ofBody head m.value).nodes, n.IsScanned := by
  have hkind : (Block.ofBody head m.value).kind = c.made := recognize_kind h
  -- no construct makes what comes from the root, from an inclusion or from the second pass
  have hframe : c.made ∉ [.document, .included] := by cases c <;> simp [made]
  have hinlines : c.made ∉ [.heading, .paragraph, .text, .table, .raw] := by
    cases c <;> simp [made]
  have hleaf (hvalue : ∃ l, m.value = .leaf l) (hpending : c.made ≠ .pending) :
      ∀ n ∈ (Block.ofBody head m.value).nodes, n.IsScanned := by
    obtain ⟨l, hl⟩ := hvalue
    rw [hl] at hkind ⊢
    rw [← hkind] at hinlines hpending
    refine isScanned_of_leaf ?_
    cases l with
    | pending p => exact absurd rfl hpending
    | _ => exact hinlines
  have hnode {f : Block.Frame} {bs : List Block} (hvalue : m.value = .node f bs)
      (hbs : ∀ b ∈ bs, ∀ n ∈ b.nodes, n.IsScanned) :
      ∀ n ∈ (Block.ofBody head m.value).nodes, n.IsScanned := by
    rw [hvalue] at hkind ⊢
    rw [← hkind] at hframe
    exact Block.forall_nodes_node.2 ⟨hframe, hbs⟩
  cases c with
  | heading name style level => exact isScanned_of_ok_map (fun _ => heading?_isScanned) h
  | underlinedHeading => exact isScanned_of_ok_map (fun _ => underlinedHeading?_isScanned) h
  | table => exact isScanned_of_ok_map (fun _ => table?_isScanned) h
  | paragraph => exact isScanned_of_ok_map (fun _ => paragraph?_isScanned) h
  | text =>
    cases h
    exact isScanned_of_leaf anyText_isScanned
  | blockquote =>
    cases nest with
    | none => cases h
    | some read =>
      obtain ⟨-, bs, hbs, rfl⟩ := exists_of_blockquote? h
      exact hnode rfl (groupCallouts_nodes isScanned_of_frame (hnest read rfl _ _ _ _ hbs))
  | list =>
    cases nest with
    | none => cases h
    | some read =>
      obtain ⟨ordered, start, loose, items, hvalue, hitems⟩ := list?_value h
      refine hnode hvalue fun i hi => ?_
      obtain ⟨head, checked, text, origin, bs, hbs, rfl⟩ := hitems i hi
      exact Block.forall_nodes_node.2 ⟨by simp [Block.IsScanned, Block.Frame.IsScanned,
        Block.Frame.kind], hnest read rfl _ _ _ _ hbs⟩
  | note =>
    obtain ⟨kind, -, hvalue⟩ := note?_value (Except.ok.inj h)
    exact hnode hvalue (by simp)
  | division =>
    obtain ⟨attributes, hvalue⟩ := division?_value (Except.ok.inj h)
    exact hnode hvalue (by simp)
  | video =>
    obtain ⟨url, hvalue⟩ := video?_value (Except.ok.inj h)
    exact hleaf ⟨_, hvalue⟩ (by decide)
  | _ => exact hleaf (exists_leaf_of_ok_map h) (by decide)

/-- Every block that the first pass makes, at any depth, is as the block rules make it. -/
theorem scanBlocks_isScanned {rules : RuleSet} (hrules : rules.IsStandard) (scope : Scope)
    (text : Text) (origin : Point) :
    ∀ b ∈ (scanBlocks rules scope text origin).tokens, ∀ n ∈ b.nodes, n.IsScanned :=
  scanBlocks_tokens (P := fun _ b => ∀ n ∈ b.nodes, n.IsScanned) hrules
    (fun _ hnest _ _ _ _ _ h => BlockConstruct.recognize_isScanned hnest h) scope text origin

/-! ## Inlines -/

/-- An inline token that is itself as the inline rules make it. -/
def Inline.IsRead (t : Inline) : Prop := t.kind ∉ [.included, .raw]

section Leaf

variable {cs : Text} {m : Found Inline.Leaf}

lemma escape?_kind (h : escape? cs = some m) : m.value.kind = .escape := by
  simp only [escape?] at h
  grind [Inline.Leaf.kind]

lemma autoLink?_kind (h : autoLink? cs = some m) : m.value.kind = .autoLink := by
  simp only [autoLink?] at h
  split at h
  next =>
    split at h
    next => cases h; rfl
    next => cases h
  next => cases h

lemma bareLink?_kind (h : bareLink? cs = some m) : m.value.kind = .autoLink := by
  simp only [bareLink?] at h
  split at h
  next => cases h
  next =>
    split at h
    next => cases h
    next => cases h; rfl

lemma tag?_kind (h : tag? cs = some m) : m.value.kind = .tag := by
  obtain ⟨n, -, rfl⟩ := Option.map_eq_some_iff.1 h
  rfl

lemma codeSpan?_kind (h : codeSpan? cs = some m) : m.value.kind = .codeSpan := by
  simp only [codeSpan?] at h
  split at h
  next => cases h
  next =>
    obtain ⟨n, -, rfl⟩ := Option.map_eq_some_iff.1 h
    rfl

lemma lineBreak?_kind (h : lineBreak? cs = some m) : m.value.kind = .br := by
  simp only [lineBreak?] at h
  grind [Inline.Leaf.kind]

lemma plainText?_kind {bare : Bool} (h : plainText? bare cs = some m) : m.value.kind = .text := by
  simp only [plainText?] at h
  grind [Inline.Leaf.kind]

lemma inlineDirective?_kind (h : inlineDirective? cs = some m) : m.value.kind = .directive := by
  obtain ⟨d, -, rfl⟩ := Option.map_eq_some_iff.1 h
  rfl

lemma angledXref?_kind (h : angledXref? cs = some m) : m.value.kind = .xref := by
  simp only [angledXref?] at h
  split at h
  next =>
    split at h
    next => cases h
    next => cases h; rfl
  next => cases h

lemma shortXref?_kind (h : shortXref? cs = some m) : m.value.kind = .xref := by
  simp only [shortXref?] at h
  split at h
  next =>
    obtain ⟨uid, -, rfl⟩ := Option.map_eq_some_iff.1 h
    rfl
  next => cases h

end Leaf

/-- The kind of the tokens that a construct makes, but for the images that links make. -/
def InlineConstruct.made : InlineConstruct → InlineTag
  | escape => .escape
  | autoLink | bareLink => .autoLink
  | tag => .tag
  | link | refLink | shortLink => .link
  | strong => .strong
  | em => .em
  | code => .codeSpan
  | lineBreak => .br
  | del => .del
  | text _ => .text
  | directive => .directive
  | angledXref | shortXref => .xref

/-- A text between marks of `size` characters at the start of the input. -/
def IsBetween (cs : Text) (size : Nat) (text : Text) : Prop :=
  (size = 2 ∧ ∃ mark, betweenPairs? mark cs = some text) ∨
    (size = 1 ∧ betweenMarks? cs = some text)

section Frame

variable {defs : Definitions} {nest : Option InlineReader} {scope : Scope} {cur : Cursor}
  {c : InlineConstruct} {m : Found Inline.Body}

/-- The address of a bare link is recognised like any leaf, though not in a link. -/
lemma ok_map_of_bareLink
    (h : InlineConstruct.bareLink.recognize defs nest scope cur = .ok (some m)) :
    scope.has Scope.isInLink = false ∧
      (.ok ((bareLink? cur.rest).map (·.map .leaf)) : Except Fault (Option (Found Inline.Body))) =
        .ok (some m) := by
  simp only [InlineConstruct.recognize] at h
  split at h
  next => cases h
  next hout => exact ⟨by simpa using hout, h⟩

/-- **What an inline construct makes.**  It is a leaf of its kind, a link or image for a label, or a
frame around the text between marks. -/
theorem InlineConstruct.recognize_cases (h : c.recognize defs nest scope cur = .ok (some m)) :
    (∃ l, m.value = .leaf l ∧ l.kind = c.made) ∨
      (∃ target, c.made = .link ∧ linkVia target nest scope cur = .ok (some m)) ∨
      ∃ frame size content, frame.kind = c.made ∧ c.made ≠ .link ∧
        (∀ text, content = some text → IsBetween cur.rest size text) ∧
        framed frame size content nest scope cur = .ok (some m) := by
  have hleaf {found : Option (Found Inline.Leaf)}
      (hkind : ∀ x, found = some x → x.value.kind = c.made)
      (h : (.ok (found.map (·.map .leaf)) : Except Fault (Option (Found Inline.Body))) =
        .ok (some m)) : ∃ l, m.value = .leaf l ∧ l.kind = c.made := by
    obtain ⟨x, hx, rfl⟩ := Option.map_eq_some_iff.1 (Except.ok.inj h)
    exact ⟨x.value, rfl, hkind x hx⟩
  cases c with
  | escape => exact .inl (hleaf (fun _ => escape?_kind) h)
  | autoLink => exact .inl (hleaf (fun _ => autoLink?_kind) h)
  | bareLink => exact .inl (hleaf (fun _ => bareLink?_kind) (ok_map_of_bareLink h).2)
  | tag => exact .inl (hleaf (fun _ => tag?_kind) h)
  | link => exact .inr (.inl ⟨_, rfl, h⟩)
  | refLink => exact .inr (.inl ⟨_, rfl, h⟩)
  | shortLink => exact .inr (.inl ⟨_, rfl, h⟩)
  | strong =>
    refine .inr (.inr ⟨_, _, _, rfl, by decide, fun text htext => ?_, h⟩)
    rcases Option.or_eq_some_iff.1 htext with hstars | ⟨-, hlines⟩
    · exact .inl ⟨rfl, _, hstars⟩
    · exact .inl ⟨rfl, _, hlines⟩
  | em => exact .inr (.inr ⟨_, _, _, rfl, by decide, fun _ htext => .inr ⟨rfl, htext⟩, h⟩)
  | code => exact .inl (hleaf (fun _ => codeSpan?_kind) h)
  | lineBreak => exact .inl (hleaf (fun _ => lineBreak?_kind) h)
  | del => exact .inr (.inr ⟨_, _, _, rfl, by decide, fun _ htext => .inl ⟨rfl, _, htext⟩, h⟩)
  | text bare => exact .inl (hleaf (fun _ => plainText?_kind) h)
  | directive => exact .inl (hleaf (fun _ => inlineDirective?_kind) h)
  | angledXref => exact .inl (hleaf (fun _ => angledXref?_kind) h)
  | shortXref => exact .inl (hleaf (fun _ => shortXref?_kind) h)

/-- A construct makes tokens of its own kind, or images. -/
lemma InlineConstruct.recognize_kind (head : Head)
    (h : c.recognize defs nest scope cur = .ok (some m)) :
    (Inline.ofBody head m.value).kind = c.made ∨ (Inline.ofBody head m.value).kind = .image := by
  rcases c.recognize_cases h with
    ⟨l, hvalue, hkind⟩ | ⟨target, hmade, hlink⟩ | ⟨frame, size, content, hkind, -, -, hframed⟩
  · rw [hvalue]
    exact .inl hkind
  · obtain ⟨l, d, -, -, rfl | ⟨read, ts, -, -, -, rfl⟩⟩ := exists_of_linkVia hlink
    · exact .inr rfl
    · exact .inl hmade.symm
  · obtain ⟨read, text, ts, -, -, -, rfl⟩ := exists_of_framed hframed
    exact .inl hkind

/-- The tokens inside what a construct makes are those that its reader yields. -/
lemma InlineConstruct.exists_read {f : Inline.Frame} {ts : List Inline}
    (h : c.recognize defs nest scope cur = .ok (some m)) (hvalue : m.value = .node f ts) :
    ∃ read inner text origin, nest = some read ∧ read inner text origin = .ok ts := by
  rcases c.recognize_cases h with
    ⟨l, hleaf, -⟩ | ⟨target, -, hlink⟩ | ⟨frame, size, content, -, -, -, hframed⟩
  · rw [hleaf] at hvalue
    cases hvalue
  · obtain ⟨l, d, -, -, rfl | ⟨read, ts', hread, -, hts, rfl⟩⟩ := exists_of_linkVia hlink
    · cases hvalue
    · cases hvalue
      exact ⟨read, _, _, _, hread, hts⟩
  · obtain ⟨read, text, ts', hread, -, hts, rfl⟩ := exists_of_framed hframed
    cases hvalue
    exact ⟨read, _, _, _, hread, hts⟩

lemma InlineConstruct.recognize_isRead {head : Head}
    (hnest : ∀ read, nest = some read →
      InlineReader.Yields read fun _ t => ∀ n ∈ t.nodes, n.IsRead)
    (h : c.recognize defs nest scope cur = .ok (some m)) :
    ∀ n ∈ (Inline.ofBody head m.value).nodes, n.IsRead := by
  have hmade : c.made ∉ [.included, .raw] := by cases c <;> simp [made]
  have hown : (Inline.ofBody head m.value).IsRead := by
    rw [Inline.IsRead]
    rcases c.recognize_kind head h with hkind | hkind
    · rwa [hkind]
    · rw [hkind]
      decide
  cases hvalue : m.value with
  | leaf l =>
    rw [hvalue] at hown
    simpa [Inline.ofBody] using hown
  | node f ts =>
    rw [hvalue] at hown
    obtain ⟨read, inner, text, origin, hread, hts⟩ := exists_read h hvalue
    exact Inline.forall_nodes_node.2 ⟨hown, hnest read hread _ _ _ _ hts⟩

end Frame

/-- Every inline token that a reading makes, at any depth, is as the inline rules make it. -/
theorem readInlines_isRead {rules : RuleSet} (hrules : rules.IsStandard) (defs : Definitions) :
    InlineReader.Yields (readInlines rules defs) fun _ t => ∀ n ∈ t.nodes, n.IsRead := by
  intro scope text origin
  exact inlinesAt_yields (P := fun _ t => ∀ n ∈ t.nodes, n.IsRead) hrules
    (fun _ hnest _ _ _ _ _ h => InlineConstruct.recognize_isRead hnest h) _ scope text origin

/-! ## The second pass -/

/-- A block that is itself as the two passes leave it: neither still pending, nor made by the
expansion of directives. -/
def Block.IsRead (b : Block) : Prop := b.kind ∉ [.document, .included, .raw, .pending]

/-- The second pass completes one block after the other. -/
lemma Block.resolveAll_forall₂ {read : InlineReader} {bs bs' : List Block}
    (h : Block.resolveAll read bs = .ok bs') :
    List.Forall₂ (fun b b' => b.resolve read = .ok b') bs bs' := by
  induction bs generalizing bs' with
  | nil =>
    cases h
    exact .nil
  | cons b bs ih =>
    simp only [Block.resolveAll] at h
    split at h
    next => cases h
    next b' hb =>
      cases hbs : Block.resolveAll read bs with
      | error e =>
        rw [hbs] at h
        cases h
      | ok rest =>
        rw [hbs] at h
        cases h
        exact .cons hb (ih hbs)

/-- What a pending block of a form may become, when `Reads text ts` tells which inlines a text may
be read as: a table takes them cell by cell, and everything else from the source. -/
inductive Pending.Form.Becomes (Reads : Text → List Inline → Prop) (source : Text) :
    Pending.Form → Block.Leaf → Prop
  | heading {depth : Nat} {ts : List Inline} (hts : Reads source ts) :
      Becomes Reads source (.heading depth) (.heading depth none ts)
  | paragraph {ts : List Inline} (hts : Reads source ts) :
      Becomes Reads source .paragraph (.paragraph ts)
  | text {ts : List Inline} (hts : Reads source ts) : Becomes Reads source .text (.text ts)
  | table {align : List (Option Alignment)} {header : List Text} {rows : List (List Text)}
      {header' : List (List Inline)} {rows' : List (List (List Inline))}
      (hheader : List.Forall₂ Reads header header')
      (hrows : List.Forall₂ (List.Forall₂ Reads) rows rows') :
      Becomes Reads source (.table align header rows) (.table align header' rows')

/-- A block is completed as its form says, each of its texts read in the scope and at the place of
the block. -/
lemma Pending.becomes_of_complete {read : InlineReader} {rule : String} {p : Pending}
    {l : Block.Leaf} (h : p.complete read rule = .ok l) :
    p.form.Becomes (fun text ts => read p.scope text p.origin = .ok ts) p.source l := by
  obtain ⟨form, source, origin, scope⟩ := p
  cases form with
  | heading depth =>
    obtain ⟨ts, hts, rfl⟩ := exists_of_map_ok h
    exact .heading hts
  | paragraph =>
    obtain ⟨ts, hts, rfl⟩ := exists_of_map_ok h
    exact .paragraph hts
  | text =>
    obtain ⟨ts, hts, rfl⟩ := exists_of_map_ok h
    exact .text hts
  | table align header rows =>
    obtain ⟨header', hheader, h⟩ := exists_of_bind_ok h
    obtain ⟨rows', hrows, h⟩ := exists_of_bind_ok h
    cases h
    exact .table (forall₂_of_mapM_ok hheader)
      ((forall₂_of_mapM_ok hrows).imp fun _ _ hrow => forall₂_of_mapM_ok hrow)
  | unfinished => cases h

/-- What a pending block becomes has inline content, all of it from the reader. -/
lemma Pending.complete_leaf {read : InlineReader} {rule : String} {p : Pending} {l : Block.Leaf}
    (h : p.complete read rule = .ok l) :
    l.kind ∈ [.heading, .paragraph, .text, .table] ∧
      ∀ ts ∈ l.inlines, ∃ text, read p.scope text p.origin = .ok ts := by
  obtain ⟨form, source, origin, scope⟩ := p
  cases Pending.becomes_of_complete h with
  | heading hts | paragraph hts | text hts =>
    exact ⟨by simp [Block.Leaf.kind], by simpa [Block.Leaf.inlines] using ⟨_, hts⟩⟩
  | table hheader hrows =>
    refine ⟨by simp [Block.Leaf.kind], ?_⟩
    intro ts hts
    simp only [Block.Leaf.inlines, List.mem_append, List.mem_flatten] at hts
    rcases hts with hts | ⟨row, hrow, hts⟩
    · obtain ⟨text, -, htext⟩ := exists_of_mem_forall₂ hheader ts hts
      exact ⟨text, htext⟩
    · obtain ⟨cells, -, hcells⟩ := exists_of_mem_forall₂ hrows row hrow
      obtain ⟨text, -, htext⟩ := exists_of_mem_forall₂ hcells ts hts
      exact ⟨text, htext⟩

lemma Block.Leaf.IsScanned.isRead {h : Head} {c : Block.Leaf} (hc : c.IsScanned)
    (hpending : ∀ p, c ≠ .pending p) : (Block.leaf h c).IsRead ∧ c.inlines = [] := by
  cases c with
  | pending p => exact absurd rfl (hpending p)
  | heading => simp [Block.Leaf.IsScanned, Block.Leaf.kind] at hc
  | paragraph => simp [Block.Leaf.IsScanned, Block.Leaf.kind] at hc
  | text => simp [Block.Leaf.IsScanned, Block.Leaf.kind] at hc
  | table => simp [Block.Leaf.IsScanned, Block.Leaf.kind] at hc
  | raw => simp [Block.Leaf.IsScanned, Block.Leaf.kind] at hc
  | _ => exact ⟨by simp [Block.IsRead, Block.kind, Block.Leaf.kind], rfl⟩

/-- Completing a block leaves no pending block in it, and only inlines from the reader. -/
lemma Block.resolve_isRead {read : InlineReader}
    (hread : read.Yields fun _ t => ∀ n ∈ t.nodes, n.IsRead) {b b' : Block}
    (h : b.resolve read = .ok b') (hb : ∀ n ∈ b.nodes, n.IsScanned) :
    (∀ n ∈ b'.nodes, n.IsRead) ∧ ∀ t ∈ b'.inlineNodes, t.IsRead := by
  induction b using Block.induction generalizing b' with
  | leaf hd c =>
    have hc : c.IsScanned := hb (.leaf hd c) (by simp)
    by_cases hpending : ∃ p, c = .pending p
    · obtain ⟨p, rfl⟩ := hpending
      rw [Block.resolve] at h
      obtain ⟨l, hl, rfl⟩ := exists_of_map_ok h
      obtain ⟨hkind, hinlines⟩ := Pending.complete_leaf hl
      refine ⟨?_, Block.forall_inlineNodes_leaf.2 ?_⟩
      · simp only [Block.nodes_leaf, List.mem_singleton, forall_eq]
        show l.kind ∉ _
        intro hmem
        revert hkind hmem
        cases l.kind <;> decide
      · intro ts hts
        obtain ⟨text, htext⟩ := hinlines ts hts
        exact hread _ _ _ _ htext
    · have hpending : ∀ p, c ≠ .pending p := fun p hp => hpending ⟨p, hp⟩
      rw [Block.resolve.eq_2 read hd c hpending] at h
      cases h
      obtain ⟨hkind, hinlines⟩ := hc.isRead (h := hd) hpending
      refine ⟨by simpa using hkind, Block.forall_inlineNodes_leaf.2 ?_⟩
      simp [hinlines]
  | node hd f bs ih =>
    rw [Block.forall_nodes_node] at hb
    rw [Block.resolve] at h
    obtain ⟨bs', hbs, rfl⟩ := exists_of_map_ok h
    have hforall := Block.resolveAll_forall₂ hbs
    have hchild : ∀ b' ∈ bs', (∀ n ∈ b'.nodes, n.IsRead) ∧ ∀ t ∈ b'.inlineNodes, t.IsRead := by
      intro b' hb'
      obtain ⟨b, hbmem, hres⟩ := exists_of_mem_forall₂ hforall b' hb'
      exact ih b hbmem hres (hb.2 b hbmem)
    refine ⟨Block.forall_nodes_node.2 ⟨?_, fun b hb => (hchild b hb).1⟩,
      Block.forall_inlineNodes_node.2 fun b hb => (hchild b hb).2⟩
    have hf : f.kind ∉ _ := hb.1
    intro hmem
    revert hf hmem
    show f.kind ∉ _ → f.kind ∈ _ → False
    cases f <;> simp [Block.Frame.kind]

/-- What a reading that succeeds has read: the blocks of the first pass, completed. -/
lemma readWith_ok {rules : RuleSet} {defs : Definitions} {scope : Scope} {text : Text}
    {root : Block} (h : (readWith rules defs scope text).1 = .ok root) :
    ∃ bs bs', (scanBlocks rules scope text Point.start).toExcept = .ok bs ∧
      Block.resolveAll (readInlines rules (defs.addBlocks bs)) bs = .ok bs' ∧
        root = Block.ofDocument text bs' := by
  obtain ⟨bs, hbs, h⟩ := exists_of_bind_ok h
  obtain ⟨bs', hbs', h⟩ := exists_of_bind_ok h
  cases h
  refine ⟨bs, bs', hbs, ?_, rfl⟩
  rwa [(Run.tokens_of_toExcept hbs).2] at hbs'

/-- Below the root of a document that was read there are only tokens as the two passes leave
them. -/
theorem readWith_isRead {rules : RuleSet} (hrules : rules.IsStandard) {defs : Definitions}
    {scope : Scope} {text : Text} {root : Block}
    (h : (readWith rules defs scope text).1 = .ok root) :
    (∀ b ∈ root.children, ∀ n ∈ b.nodes, n.IsRead) ∧ ∀ t ∈ root.inlineNodes, t.IsRead := by
  obtain ⟨bs, bs', hbs, hbs', rfl⟩ := readWith_ok h
  have hscanned := scanBlocks_isScanned hrules scope text Point.start
  rw [(Run.tokens_of_toExcept hbs).2] at hscanned
  have hchild : ∀ b' ∈ bs', (∀ n ∈ b'.nodes, n.IsRead) ∧ ∀ t ∈ b'.inlineNodes, t.IsRead := by
    intro b' hb'
    obtain ⟨b, hb, hres⟩ := exists_of_mem_forall₂ (Block.resolveAll_forall₂ hbs') b' hb'
    exact Block.resolve_isRead (readInlines_isRead hrules _) hres (hscanned b hb)
  exact ⟨fun b hb => (hchild b hb).1, Block.forall_inlineNodes_node.2 fun b hb => (hchild b hb).2⟩

end Docmark
