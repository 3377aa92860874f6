import Mathlib
import Docmark.Proofs.Reading.Definitions
import Docmark.Proofs.Reading.Nesting
import Docmark.Proofs.Reading.Passes

/-!
# Where callouts stand

The rules for notes, divisions and videos are switched on by a setting that a block quote makes and
that everything nested in it inherits, while it is the quote alone that groups its blocks.  Quotes
in lists keep the two in step, lists in quotes do not: in an item of a list in a quote the markers
are still recognised, but nothing is moved into them.

## Main results

* `callouts_stand` — a callout stands in a quote or in an item inside a quote; a quote moves what
  follows a marker into it, and an item does not.
* `note_in_item` — a note that is followed by its text and stays empty.
-/

namespace Docmark

/-! ## Settings of nested content -/

/-- The content of a container is read with the setting of the container. -/
lemma Scope.has_nested_self (scope : Scope) (key : String) : (scope.nested key).has key = true := by
  have hget : (scope.nested key).get? key = some (.flag true) := by
    simp only [Scope.nested, Scope.descend, Scope.set, Scope.get?]
    rw [Settings.lookup_insert_self]
  rw [Scope.has, hget]
  decide

/-- Other settings hold in a container as they do around it. -/
lemma Scope.has_nested_of_ne (scope : Scope) {key key' : String} (hkey : key' ≠ key)
    (htop : key' ≠ Scope.isTop) : (scope.nested key).has key' = scope.has key' := by
  have hget : (scope.nested key).get? key' = scope.get? key' := by
    simp only [Scope.nested, Scope.descend, Scope.set, Scope.get?]
    rw [Settings.lookup_insert_of_ne hkey, Settings.lookup_insert_of_ne htop]
  rw [Scope.has, hget, Scope.has]

/-! ## Places -/

/-- Frames inside which a callout may stand, the outermost first: a quote directly around it, or an
item with a quote further out.  `quoted` tells whether all of them are in a quote already. -/
def MayHoldCallout (quoted : Bool) (above : List Block.Frame) : Prop :=
  (above = [] ∧ quoted = true) ∨ above.getLast? = some .blockquote ∨
    (above.getLast?.any (·.isItem) = true ∧ (quoted = true ∨ .blockquote ∈ above))

section Places

variable {quoted : Bool} {above : List Block.Frame}

lemma MayHoldCallout.in_blockquote (h : MayHoldCallout true above) :
    MayHoldCallout quoted (.blockquote :: above) := by
  cases above with
  | nil => exact .inr (.inl rfl)
  | cons f above =>
    rcases h with ⟨hnil, -⟩ | hquote | ⟨hitem, -⟩
    · cases hnil
    · exact .inr (.inl hquote)
    · exact .inr (.inr ⟨hitem, .inr List.mem_cons_self⟩)

lemma MayHoldCallout.in_list {list item : Block.Frame} (hframe : item.isItem = true)
    (h : MayHoldCallout quoted above) : MayHoldCallout quoted (list :: item :: above) := by
  cases above with
  | nil =>
    rcases h with ⟨-, hquoted⟩ | hquote | ⟨hitem, -⟩
    · exact .inr (.inr ⟨by simpa using hframe, .inl hquoted⟩)
    · cases hquote
    · cases hitem
  | cons f above =>
    rcases h with ⟨hnil, -⟩ | hquote | ⟨hitem, hin⟩
    · cases hnil
    · exact .inr (.inl hquote)
    · refine .inr (.inr ⟨hitem, hin.imp_right fun hmem => ?_⟩)
      exact List.mem_cons_of_mem _ (List.mem_cons_of_mem _ hmem)

/-- What a callout gathers keeps its place, unless it stood at the top. -/
lemma MayHoldCallout.gathered {f : Block.Frame} (hne : above ≠ [])
    (h : MayHoldCallout quoted above) : MayHoldCallout quoted (f :: above) := by
  obtain ⟨g, above, rfl⟩ := List.exists_cons_of_ne_nil hne
  rcases h with ⟨hnil, -⟩ | hquote | ⟨hitem, hin⟩
  · cases hnil
  · exact .inr (.inl hquote)
  · exact .inr (.inr ⟨hitem, hin.imp_right (List.mem_cons_of_mem _)⟩)

/-- In a document, where no quote is around it, a callout needs one inside. -/
lemma MayHoldCallout.in_document (h : MayHoldCallout false above) :
    (Block.Frame.document :: above).getLast? = some .blockquote ∨
      (∃ checked loose, (Block.Frame.document :: above).getLast? =
        some (.listItem checked loose)) ∧ .blockquote ∈ Block.Frame.document :: above := by
  cases above with
  | nil => simp [MayHoldCallout] at h
  | cons f above =>
    rw [List.getLast?_cons_cons]
    rcases h with ⟨hnil, -⟩ | hquote | ⟨hitem, hin⟩
    · cases hnil
    · exact .inl hquote
    · obtain ⟨item, hlast, hframe⟩ := (Option.any_eq_true _ _).1 hitem
      obtain ⟨checked, loose, rfl⟩ := Block.Frame.exists_of_isItem hframe
      exact .inr ⟨⟨checked, loose, hlast⟩, List.mem_cons_of_mem _ (by simpa using hin)⟩

end Places

/-- Every callout in a block stands where it may. -/
def Block.CalloutsStand (scope : Scope) (b : Block) : Prop :=
  ∀ above n, b.HasInside above n → isCallout n = true →
    MayHoldCallout (scope.has Scope.isBlockQuote) above

/-- Grouping keeps callouts where they may stand: those at the top are not moved. -/
lemma Block.CalloutsStand.group {scope : Scope} {bs : List Block}
    (h : ∀ b ∈ bs, b.CalloutsStand scope) : ∀ g ∈ groupCallouts bs, g.CalloutsStand scope := by
  intro g hg above n hn hcallout
  rcases isGroup_of_mem_groupCallouts g hg with
    hmem | ⟨head, head', f, kids, moved, hmem, hf, rfl, hmoved⟩
  · exact h g hmem above n hn hcallout
  · rcases hasInside_node.1 hn with ⟨rfl, rfl⟩ | ⟨d, hd, inner, rfl, hinside⟩
    · exact h _ hmem [] _ (.self _) (by simpa using hf)
    · rcases List.mem_append.1 hd with hkid | hd
      · exact h _ hmem _ n (.child hkid hinside) hcallout
      · obtain ⟨hdmem, hdcallout⟩ := hmoved d hd
        refine (h d hdmem inner n hinside hcallout).gathered ?_
        rintro rfl
        cases hinside
        rw [hcallout] at hdcallout
        cases hdcallout

/-- A quote that has moved what follows a marker, or an item that has moved nothing. -/
def Block.IsGrouped : Block → Prop
  | .node _ .blockquote bs => bs.IsChain fun b next => b.gathers = true → isCallout next = true
  | .node _ (.listItem _ _) bs => ∀ b ∈ bs, b.gathers = true → b.children = []
  | _ => True

lemma Block.isGrouped_of_gathers {h : Head} {f : Block.Frame} (hf : f.gathers = true)
    (bs : List Block) : (Block.node h f bs).IsGrouped := by
  cases f with
  | note => trivial
  | division => trivial
  | _ => cases hf

lemma Block.IsGrouped.group {bs : List Block} (h : ∀ b ∈ bs, ∀ n ∈ b.nodes, n.IsGrouped) :
    ∀ g ∈ groupCallouts bs, ∀ n ∈ g.nodes, n.IsGrouped := by
  intro g hg
  rcases isGroup_of_mem_groupCallouts g hg with
    hmem | ⟨head, head', f, kids, moved, hmem, hf, rfl, hmoved⟩
  · exact h g hmem
  · refine Block.forall_nodes_node.2 ⟨isGrouped_of_gathers hf _, fun d hd => ?_⟩
    rcases List.mem_append.1 hd with hkid | hd
    · exact (Block.forall_nodes_node.1 (h _ hmem)).2 d hkid
    · exact h d (hmoved d hd).1

/-! ## The first pass -/

/-- A block as it is read in a scope: callouts stand where they may, quotes have moved what follows
their markers, and a marker that was just read is empty. -/
structure Block.HasCallouts (scope : Scope) (b : Block) : Prop where
  stand : b.CalloutsStand scope
  grouped : ∀ n ∈ b.nodes, n.IsGrouped
  marker : b.gathers = true → b.children = []

section FirstPass

variable {scope : Scope} {cur : Cursor} {head : Head}

/-- A leaf that is no video has no callout in it. -/
lemma hasCallouts_leaf {l : Block.Leaf} (hl : l.kind ≠ .video) :
    (Block.ofBody head (.leaf l)).HasCallouts scope where
  stand := by
    intro above n hn hcallout
    obtain ⟨-, rfl⟩ := Block.hasInside_leaf.1 hn
    simp [hl] at hcallout
  grouped := by simp [Block.ofBody, Block.IsGrouped]
  marker := fun _ => rfl

/-- A callout that was just read holds nothing, and stands where the scope lets it. -/
lemma hasCallouts_marker {b : Block} (hquoted : scope.has Scope.isBlockQuote = true)
    (hb : (∃ h c, b = .leaf h c) ∨ ∃ h f, b = .node h f [] ∧ f.gathers = true) :
    b.HasCallouts scope where
  stand := by
    intro above n hn _
    refine .inl ⟨?_, hquoted⟩
    rcases hb with ⟨h, c, rfl⟩ | ⟨h, f, rfl, -⟩
    · exact (Block.hasInside_leaf.1 hn).1
    · rcases Block.hasInside_node.1 hn with ⟨hnil, -⟩ | ⟨d, hd, -⟩
      · exact hnil
      · cases hd
  grouped := by
    rcases hb with ⟨h, c, rfl⟩ | ⟨h, f, rfl, hf⟩
    · simp [Block.IsGrouped]
    · exact Block.forall_nodes_node.2 ⟨Block.isGrouped_of_gathers hf _, by simp⟩
  marker := by
    rcases hb with ⟨h, c, rfl⟩ | ⟨h, f, rfl, -⟩ <;> exact fun _ => rfl

lemma hasCallouts_blockquote {read : BlockReader} (hread : read.Yields Block.HasCallouts)
    {m : Found Block.Body} (h : blockquote? read scope cur = .ok (some m)) :
    (Block.ofBody head m.value).HasCallouts scope := by
  obtain ⟨-, bs, hbs, rfl⟩ := exists_of_blockquote? h
  have hinner : ∀ b ∈ bs, b.HasCallouts (scope.nested Scope.isBlockQuote) := hread _ _ _ _ hbs
  have hstand := Block.CalloutsStand.group fun b hb => (hinner b hb).stand
  refine ⟨?_, ?_, fun hgathers => nomatch hgathers⟩
  · intro above n hn hcallout
    rcases Block.hasInside_node.1 hn with ⟨rfl, rfl⟩ | ⟨g, hg, inner, rfl, hinside⟩
    · cases hcallout
    · have hmay := hstand g hg inner n hinside hcallout
      rw [Scope.has_nested_self] at hmay
      exact hmay.in_blockquote
  · exact Block.forall_nodes_node.2 ⟨groupCallouts_isChain bs,
      Block.IsGrouped.group fun b hb => (hinner b hb).grouped⟩

lemma hasCallouts_list {read : BlockReader} (hread : read.Yields Block.HasCallouts)
    {m : Found Block.Body} (h : list? read scope cur = .ok (some m)) :
    (Block.ofBody head m.value).HasCallouts scope := by
  obtain ⟨ordered, start, loose, items, hvalue, hitems⟩ := list?_value h
  rw [hvalue]
  refine ⟨?_, ?_, fun hgathers => nomatch hgathers⟩
  · intro above n hn hcallout
    rcases Block.hasInside_node.1 hn with ⟨rfl, rfl⟩ | ⟨i, hi, inItem, rfl, hitem⟩
    · cases hcallout
    · obtain ⟨itemHead, checked, text, origin, bs, hbs, rfl⟩ := hitems i hi
      rcases Block.hasInside_node.1 hitem with ⟨rfl, rfl⟩ | ⟨b, hb, inner, rfl, hinside⟩
      · cases hcallout
      · have hmay := (hread _ _ _ _ hbs b hb).stand inner n hinside hcallout
        rw [Scope.has_nested_of_ne scope (by decide) (by decide)] at hmay
        exact hmay.in_list rfl
  · refine Block.forall_nodes_node.2 ⟨trivial, fun i hi => ?_⟩
    obtain ⟨itemHead, checked, text, origin, bs, hbs, rfl⟩ := hitems i hi
    have hinner : ∀ b ∈ bs, b.HasCallouts (scope.nested Scope.isInList) := hread _ _ _ _ hbs
    exact Block.forall_nodes_node.2
      ⟨fun b hb => (hinner b hb).marker, fun b hb => (hinner b hb).grouped⟩

lemma BlockConstruct.recognize_hasCallouts {nest : Option BlockReader}
    (hnest : ∀ read, nest = some read → BlockReader.Yields read Block.HasCallouts)
    {c : BlockConstruct} {m : Found Block.Body} (h : c.recognize nest scope cur = .ok (some m)) :
    (Block.ofBody head m.value).HasCallouts scope := by
  rcases c.recognize_cases h with
    ⟨read, hread, hquote⟩ | ⟨read, hread, hlist⟩ | ⟨f, hvalue, hf, hquoted⟩ | ⟨l, hvalue, hvideo⟩
  · exact hasCallouts_blockquote (hnest read hread) hquote
  · exact hasCallouts_list (hnest read hread) hlist
  · rw [hvalue]
    exact hasCallouts_marker hquoted (.inr ⟨_, _, rfl, hf⟩)
  · rw [hvalue]
    by_cases hkind : l.kind = .video
    · exact hasCallouts_marker (hvideo hkind) (.inl ⟨_, _, rfl⟩)
    · exact hasCallouts_leaf hkind

end FirstPass

/-- The callouts of the first pass, at every level. -/
lemma scanBlocks_hasCallouts {rules : RuleSet} (hrules : rules.IsStandard) (scope : Scope)
    (text : Text) (origin : Point) :
    ∀ b ∈ (scanBlocks rules scope text origin).tokens, b.HasCallouts scope :=
  scanBlocks_tokens hrules
    (fun _ hnest _ _ _ _ _ h => BlockConstruct.recognize_hasCallouts hnest h) scope text origin

/-! ## Documents -/

/-- A relation between neighbours passes to a list that is related element by element. -/
lemma isChain_of_forall₂ {α : Type} {R S : α → α → Prop} {as bs : List α}
    (hbs : List.Forall₂ R as bs)
    (hS : ∀ a a' b b', R a a' → R b b' → S a b → S a' b') (has : as.IsChain S) :
    bs.IsChain S := by
  induction hbs with
  | nil => exact .nil
  | @cons a a' as bs ha hrest ih =>
    rw [List.isChain_cons] at has
    refine .cons (ih has.2) fun b' hb' => ?_
    cases hrest with
    | nil => cases hb'
    | @cons b _ _ _ hb =>
      cases hb'
      exact hS a a' b b' ha hb (has.1 b rfl)

lemma Block.children_of_resolve {read : InlineReader} {b b' : Block}
    (h : b.resolve read = .ok b') (hb : b.children = []) : b'.children = [] := by
  cases b' with
  | leaf hd c => rfl
  | node hd f bs' =>
    obtain ⟨bs, rfl, hbs⟩ := exists_of_resolve_node h
    have hnil : bs = [] := hb
    rw [hnil] at hbs
    exact List.forall₂_nil_left_iff.1 hbs

/-- Completing a block keeps what was grouped. -/
lemma Block.IsGrouped.resolve {read : InlineReader} {b b' : Block} (hb : b.IsGrouped)
    (h : b.resolve read = .ok b') : b'.IsGrouped := by
  cases b' with
  | leaf hd c => trivial
  | node hd f bs' =>
    obtain ⟨bs, rfl, hbs⟩ := exists_of_resolve_node h
    cases f with
    | blockquote =>
      refine isChain_of_forall₂ hbs (fun b b' next next' hb hnext hchain => ?_) hb
      rwa [gathers_of_resolve hb, isCallout_of_resolve hnext]
    | listItem checked loose =>
      intro b' hb' hgathers
      obtain ⟨b, hmem, hres⟩ := exists_of_mem_forall₂ hbs b' hb'
      rw [gathers_of_resolve hres] at hgathers
      exact children_of_resolve hres (hb b hmem hgathers)
    | _ => trivial

section Documents

variable {rules : RuleSet} {defs : Definitions} {scope : Scope} {text : Text} {root : Block}

/-- **Where callouts stand.**  Let a document be read outside of any quote.  Each note, division and
video is directly in a quote, or directly in an item that is inside a quote.  In a quote, nothing
but a callout follows a note or division, since all else was moved into it; in an item, a note or
division is empty, whatever follows it. -/
theorem callouts_stand (hrules : rules.IsStandard)
    (hscope : scope.has Scope.isBlockQuote = false)
    (h : (readWith rules defs scope text).1 = .ok root) :
    (∀ above n, root.HasInside above n → isCallout n = true →
      above.getLast? = some .blockquote ∨
        (∃ checked loose, above.getLast? = some (.listItem checked loose)) ∧
          .blockquote ∈ above) ∧
    (∀ hd bs, .node hd .blockquote bs ∈ root.nodes →
      bs.IsChain fun b next => b.gathers = true → isCallout next = true) ∧
    ∀ hd checked loose bs, .node hd (.listItem checked loose) bs ∈ root.nodes →
      ∀ b ∈ bs, b.gathers = true → b.children = [] := by
  obtain ⟨bs, hbs, hres⟩ := exists_of_readWith h
  have hcallouts : ∀ b ∈ bs, b.HasCallouts scope := by
    rw [← hbs]
    exact scanBlocks_hasCallouts hrules scope text Point.start
  have hgrouped : ∀ n ∈ root.nodes, n.IsGrouped := by
    intro n hn
    obtain ⟨above, hn⟩ := Block.mem_nodes_iff.1 hn
    obtain ⟨m, hm, hmres⟩ := hn.of_resolve hres
    have hroot : ∀ m ∈ (Block.ofDocument text bs).nodes, m.IsGrouped :=
      Block.forall_nodes_node.2 ⟨trivial, fun b hb => (hcallouts b hb).grouped⟩
    exact (hroot m (Block.mem_nodes_iff.2 ⟨above, hm⟩)).resolve hmres
  refine ⟨?_, fun hd bs hn => hgrouped _ hn, fun hd checked loose bs hn => hgrouped _ hn⟩
  intro above n hn hcallout
  obtain ⟨m, hm, hmres⟩ := hn.of_resolve hres
  rw [Block.isCallout_of_resolve hmres] at hcallout
  rcases Block.hasInside_node.1 hm with ⟨rfl, rfl⟩ | ⟨b, hb, inner, rfl, hinside⟩
  · cases hcallout
  · have hmay := (hcallouts b hb).stand inner m hinside hcallout
    rw [hscope] at hmay
    exact hmay.in_document

/-- A section around two paragraphs and a video behind it, in a quote of an item. -/
theorem callouts_stand_dfm :
    dfmRules.IsStandard ∧ Scope.document.has Scope.isBlockQuote = false ∧ ∃ root,
      (readWith dfmRules [] Scope.document
        "- > [!div]\n  > a\n  >\n  > b\n  > [!Video u]\n".toList).1 = .ok root ∧
      (∀ above n, root.HasInside above n → isCallout n = true →
        above.getLast? = some .blockquote ∨
          (∃ checked loose, above.getLast? = some (.listItem checked loose)) ∧
            .blockquote ∈ above) ∧
      (∀ hd bs, .node hd .blockquote bs ∈ root.nodes →
        bs.IsChain fun b next => b.gathers = true → isCallout next = true) ∧
      ∀ hd checked loose bs, .node hd (.listItem checked loose) bs ∈ root.nodes →
        ∀ b ∈ bs, b.gathers = true → b.children = [] := by
  have hrules : dfmRules.IsStandard := Flavor.rules_isStandard .dfm
  have hscope : Scope.document.has Scope.isBlockQuote = false := by decide
  obtain ⟨root, hroot⟩ := exists_readWith hrules (Flavor.rules_hasText .dfm) [] Scope.document
    "- > [!div]\n  > a\n  >\n  > b\n  > [!Video u]\n".toList
  exact ⟨hrules, hscope, root, hroot, callouts_stand hrules hscope hroot⟩

end Documents

/-- **A note in an item.**  In the item of a quoted list the marker of a note is read as a note.  It
is a child of the item, and the text that follows the marker stays outside of it. -/
theorem note_in_item :
    ∃ root, (readWith dfmRules [] Scope.document "> - [!NOTE]\n>   text\n".toList).1 = .ok root ∧
      ∃ above n, root.HasInside above n ∧ n.kind = .listItem ∧
        n.children.map Block.kind = [.note, .text] ∧ ∀ b ∈ n.children, b.children.isEmpty := by
  decide +kernel

end Docmark
