import Mathlib
import Docmark.Construct.Html
import Docmark.Proofs.Container.Content

/-!
# What a line feed at the end of a text adds to a tree

A line feed at the end of a text can reach the last block of each container that stands at the end,
and nothing else: the stretch of source gets longer, a blank line may stand there, and raw HTML that
goes on to the end takes the line feed.  `Block.Grows` relates the blocks of a text to those of the
text with one more line feed.  The line feed shows in one place only, in raw HTML that ends with a
line feed already and is still open.  `Block.endsOpen` says whether there is such raw HTML.
-/

namespace Docmark

/-! ## Blocks that are still open at the end -/

/-- Whether a leaf is raw HTML that ends with a line feed and goes on with one more: neither a blank
line nor a closing mark ends it. -/
def Block.Leaf.endsOpen : Block.Leaf → Bool
  | .html markup =>
    markup.getLast? == some '\n' && htmlLength? (markup ++ ['\n']) == some (markup.length + 1)
  | _ => false

mutual

/-- Whether the last leaf in a block ends open although the container around it ends within a line,
which it can where the last line of a quote is nothing but a mark.  `within` tells whether the
container around the block ends within a line; a callout counts as part of its quote. -/
def Block.endsOpen (within : Bool) : Block → Bool
  | .leaf _ l => within && l.endsOpen
  | .node h f bs => Block.endsOpenAll (if f.gathers then within else h.span.stop.column != 1) bs

/-- Whether the last of some blocks ends open. -/
def Block.endsOpenAll (within : Bool) : List Block → Bool
  | [] => false
  | b :: bs => if bs.isEmpty then b.endsOpen within else Block.endsOpenAll within bs

end

@[simp] lemma Block.endsOpen_leaf (within : Bool) (h : Head) (l : Block.Leaf) :
    (Block.leaf h l).endsOpen within = (within && l.endsOpen) := by
  simp [Block.endsOpen]

@[simp] lemma Block.endsOpen_node (within : Bool) (h : Head) (f : Block.Frame) (bs : List Block) :
    (Block.node h f bs).endsOpen within =
      Block.endsOpenAll (if f.gathers then within else h.span.stop.column != 1) bs := by
  simp [Block.endsOpen]

@[simp] lemma Block.endsOpenAll_nil (within : Bool) : Block.endsOpenAll within [] = false := by
  simp [Block.endsOpenAll]

@[simp] lemma Block.endsOpenAll_singleton (within : Bool) (b : Block) :
    Block.endsOpenAll within [b] = b.endsOpen within := by
  simp [Block.endsOpenAll]

@[simp] lemma Block.endsOpenAll_concat (within : Bool) (bs : List Block) (b : Block) :
    Block.endsOpenAll within (bs ++ [b]) = b.endsOpen within := by
  induction bs with
  | nil => simp
  | cons c bs ih => simp [Block.endsOpenAll, ih]

lemma Block.endsOpenAll_cons (within : Bool) (b : Block) {bs : List Block} (h : bs ≠ []) :
    Block.endsOpenAll within (b :: bs) = Block.endsOpenAll within bs := by
  simp [Block.endsOpenAll, h]

lemma Block.exists_of_newline {b : Block} (hb : b.kind = .newline) : ∃ h, b = .leaf h .newline := by
  cases b with
  | leaf h l => cases l <;> first | exact ⟨h, rfl⟩ | cases hb
  | node h f bs => cases f <;> cases hb

/-! ## Growth -/

/-- A leaf, and what it is when its text has one more line feed.  Only the text of raw HTML gets
longer, and the line feed shows if that text ends with one already; the source that is kept with a
table does not matter. -/
inductive Block.Leaf.Grows (shown : Bool) : Block.Leaf → Block.Leaf → Prop
  | refl (h : shown = false) (l : Block.Leaf) : Grows shown l l
  | table (h : shown = false) {align : List (Option Alignment)} {header : List Text}
      {rows : List (List Text)} {source source' : Text} {origin : Point} {scope : Scope} :
      Grows shown (.pending ⟨.table align header rows, source, origin, scope⟩)
        (.pending ⟨.table align header rows, source', origin, scope⟩)
  | html {raw : Text} (h : (raw.getLast? == some '\n') = shown) :
      Grows shown (.html raw) (.html (raw ++ ['\n']))

/-- Two heads that agree but for where their blocks end. -/
def Head.Agrees (h h' : Head) : Prop := h'.rule = h.rule ∧ h'.span.start = h.span.start

/-- Two sequences of blocks that differ at their end: in related last blocks, or in blank lines. -/
inductive GrowsAtEnd (shown : Bool) (R : Block → Block → Prop) : List Block → List Block → Prop
  | feeds (h : shown = false) {bs bs' : List Block} (hbs : ∀ b ∈ bs, b.kind = .newline)
      (hbs' : ∀ b ∈ bs', b.kind = .newline) : GrowsAtEnd shown R bs bs'
  | last {b b' : Block} (h : R b b') : GrowsAtEnd shown R [b] [b']
  | cons (b : Block) {bs bs' : List Block} (h : GrowsAtEnd shown R bs bs') :
      GrowsAtEnd shown R (b :: bs) (b :: bs')

/-- A block, and what it is when its text has one more line feed; `shown` tells whether the line
feed shows. -/
inductive Block.Grows (shown : Bool) : Block → Block → Prop
  | leaf {h h' : Head} {l l' : Block.Leaf} (hh : h.Agrees h') (hl : l.Grows shown l') :
      Grows shown (.leaf h l) (.leaf h' l')
  | node {h h' : Head} {f : Block.Frame} {bs bs' : List Block} (hh : h.Agrees h')
      (hitem : f.isItem = true → (1 < bs.length ↔ 1 < bs'.length))
      (hbs : GrowsAtEnd shown (Grows shown) bs bs') : Grows shown (.node h f bs) (.node h' f bs')

namespace GrowsAtEnd

variable {shown : Bool} {R : Block → Block → Prop} {bs bs' : List Block}

lemma refl (R : Block → Block → Prop) (bs : List Block) : GrowsAtEnd false R bs bs := by
  induction bs with
  | nil => exact .feeds rfl (by simp) (by simp)
  | cons b bs ih => exact .cons b ih

lemma prepend (pre : List Block) (h : GrowsAtEnd shown R bs bs') :
    GrowsAtEnd shown R (pre ++ bs) (pre ++ bs') := by
  induction pre with
  | nil => exact h
  | cons b pre ih => exact .cons b ih

lemma mono {S : Block → Block → Prop} (h : GrowsAtEnd shown R bs bs')
    (himp : ∀ b b', R b b' → S b b') : GrowsAtEnd shown S bs bs' := by
  induction h with
  | feeds h hbs hbs' => exact .feeds h hbs hbs'
  | last h => exact .last (himp _ _ h)
  | cons b _ ih => exact .cons b ih

end GrowsAtEnd

lemma Block.Leaf.Grows.kind {shown : Bool} {l l' : Block.Leaf} (h : l.Grows shown l') :
    l'.kind = l.kind := by
  cases h <;> rfl

section Grows

variable {shown : Bool}

lemma Block.Leaf.Grows.eq_false {l l' : Block.Leaf} (h : l.Grows shown l')
    (hsame : l' = l) : shown = false := by
  cases h with
  | refl h => exact h
  | table h => exact h
  | html => simp at hsame

/-- What stays the same shows no line feed. -/
lemma Block.Grows.eq_false {b : Block} (h : b.Grows shown b) : shown = false := by
  have hatEnd {bs bs' : List Block} (h : GrowsAtEnd shown (Block.Grows shown) bs bs')
      (hsame : bs' = bs) (hbs : ∀ b ∈ bs, b.Grows shown b → shown = false) : shown = false := by
    induction h with
    | feeds h => exact h
    | last h =>
      cases hsame
      exact hbs _ List.mem_cons_self h
    | cons b _ ih =>
      exact ih (List.cons.inj hsame).2 fun d hd => hbs d (List.mem_cons_of_mem _ hd)
  induction b using Block.induction with
  | leaf hd l =>
    cases h with
    | leaf _ hl => exact hl.eq_false rfl
  | node hd f bs ih =>
    cases h with
    | node _ _ hbs => exact hatEnd hbs rfl ih

/-- **Induction over growth.**  A relation of trees that passes from the blocks at the end to the
containers around them holds of all trees that grow. -/
@[elab_as_elim]
theorem Block.Grows.induction {P : Block → Block → Prop}
    (leaf : ∀ {h h' : Head} {l l' : Block.Leaf}, h.Agrees h' → l.Grows shown l' →
      P (.leaf h l) (.leaf h' l'))
    (node : ∀ {h h' : Head} {f : Block.Frame} {bs bs' : List Block}, h.Agrees h' →
      (f.isItem = true → (1 < bs.length ↔ 1 < bs'.length)) →
      GrowsAtEnd shown P bs bs' → P (.node h f bs) (.node h' f bs'))
    {b b' : Block} (h : b.Grows shown b') : P b b' := by
  have hatEnd {bs bs' : List Block} (h : GrowsAtEnd shown (Block.Grows shown) bs bs')
      (ih : ∀ b ∈ bs, ∀ b', b.Grows shown b' → P b b') : GrowsAtEnd shown P bs bs' := by
    induction h with
    | feeds h hbs hbs' => exact .feeds h hbs hbs'
    | last h => exact .last (ih _ List.mem_cons_self _ h)
    | cons b _ hrest => exact .cons b (hrest fun d hd => ih d (List.mem_cons_of_mem _ hd))
  induction b using Block.induction generalizing b' with
  | leaf hd l =>
    cases h with
    | leaf hh hl => exact leaf hh hl
  | node hd f bs ih =>
    cases h with
    | node hh hitem hbs => exact node hh hitem (hatEnd hbs fun b hb b' h => ih b hb h)

end Grows

/-! ## Grouping -/

section Grouping

variable {last b : Block} {rest : List Block}

lemma groupAfter_apart (h : last.gathers = false ∨ isCallout b = true) :
    groupAfter last (b :: rest) = last :: groupAfter b rest := by
  have hnone : (if isCallout b then none else appendToCallout? last b) = none := by
    rcases h with h | h
    · cases happend : appendToCallout? last b with
      | none => simp
      | some grown =>
        obtain ⟨hd, f, kids, rfl, hf, -⟩ := exists_of_appendToCallout? happend
        exact absurd hf (ne_true_of_eq_false h)
    · rw [if_pos h]
  simp only [groupAfter, hnone]

lemma groupAfter_gather {h : Head} {f : Block.Frame} {kids : List Block} (hf : f.gathers = true)
    (hb : isCallout b = false) :
    groupAfter (.node h f kids) (b :: rest) =
      groupAfter (.node { h with span := ⟨h.span.start, b.span.stop⟩ } f (kids ++ [b])) rest := by
  cases f with
  | note | division => simp [groupAfter, appendToCallout?, hb]
  | _ => cases hf

/-- A block behind another one is gathered by it or begins a group of its own. -/
lemma groupAfter_cases (last b : Block) :
    (last.gathers = false ∨ isCallout b = true) ∨
      ∃ h f kids, last = .node h f kids ∧ f.gathers = true ∧ isCallout b = false := by
  cases hb : isCallout b with
  | true => exact .inl (.inr rfl)
  | false =>
    cases last with
    | leaf => exact .inl (.inl rfl)
    | node h f kids =>
      cases hf : f.gathers with
      | true => exact .inr ⟨h, f, kids, rfl, hf, rfl⟩
      | false => exact .inl (.inl hf)

lemma groupAfter_ne_nil (last : Block) (rest : List Block) : groupAfter last rest ≠ [] := by
  induction rest generalizing last with
  | nil => exact List.cons_ne_nil _ _
  | cons b rest ih =>
    obtain hapart | ⟨h, f, kids, rfl, hf, hb⟩ := groupAfter_cases last b
    · rw [groupAfter_apart hapart]
      exact List.cons_ne_nil _ _
    · rw [groupAfter_gather hf hb]
      exact ih _

/-- Grouping leaves the last leaf at the end, in the same container. -/
lemma Block.endsOpenAll_groupCallouts (within : Bool) (bs : List Block) :
    Block.endsOpenAll within (groupCallouts bs) = Block.endsOpenAll within bs := by
  have hafter (rest : List Block) (last : Block) :
      Block.endsOpenAll within (groupAfter last rest) =
        Block.endsOpenAll within (last :: rest) := by
    induction rest generalizing last with
    | nil => rfl
    | cons b rest ih =>
      rw [Block.endsOpenAll_cons within last (List.cons_ne_nil b rest)]
      obtain hapart | ⟨h, f, kids, rfl, hf, hb⟩ := groupAfter_cases last b
      · rw [groupAfter_apart hapart, Block.endsOpenAll_cons _ _ (groupAfter_ne_nil b rest), ih]
      · rw [groupAfter_gather hf hb, ih]
        cases rest with
        | nil => simp [hf]
        | cons c rest => simp [Block.endsOpenAll_cons]
  cases bs with
  | nil => rfl
  | cons b rest => exact hafter rest b

lemma not_callout_of_newline (hb : b.kind = .newline) :
    isCallout b = false ∧ b.gathers = false := by
  obtain ⟨h, rfl⟩ := Block.exists_of_newline hb
  exact ⟨rfl, rfl⟩

/-- Blank lines are gathered into a callout in front of them, or stay. -/
lemma groupAfter_feeds (last : Block) (hrest : ∀ b ∈ rest, b.kind = .newline) :
    last.gathers = false ∧ groupAfter last rest = last :: rest ∨
      ∃ h h' f kids, last = .node h f kids ∧ f.gathers = true ∧ h.Agrees h' ∧
        groupAfter last rest = [.node h' f (kids ++ rest)] := by
  induction rest generalizing last with
  | nil =>
    cases last with
    | leaf => exact .inl ⟨rfl, rfl⟩
    | node h f kids =>
      cases hf : f.gathers with
      | true => exact .inr ⟨h, h, f, kids, rfl, hf, ⟨rfl, rfl⟩, by rw [List.append_nil]; rfl⟩
      | false => exact .inl ⟨hf, rfl⟩
  | cons b rest ih =>
    obtain ⟨hb, hrest⟩ := List.forall_mem_cons.1 hrest
    obtain ⟨hcallout, hgathers⟩ := not_callout_of_newline hb
    obtain hapart | ⟨h, f, kids, rfl, hf, -⟩ := groupAfter_cases last b
    · obtain ⟨-, hgroup⟩ | ⟨h, h', f, kids, rfl, hf, -⟩ := ih b hrest
      · refine .inl ⟨hapart.resolve_right (ne_true_of_eq_false hcallout), ?_⟩
        rw [groupAfter_apart hapart, hgroup]
      · exact absurd hf (ne_true_of_eq_false hgathers)
    · rw [groupAfter_gather hf hcallout]
      obtain ⟨hnot, -⟩ | ⟨h₁, h', f₁, kids₁, hnode, -, hagrees, hgroup⟩ :=
        ih (.node { h with span := ⟨h.span.start, b.span.stop⟩ } f (kids ++ [b])) hrest
      · exact absurd hf (ne_true_of_eq_false hnot)
      · cases hnode
        exact .inr ⟨h, h', f, kids, rfl, hf, hagrees, by rw [hgroup, List.append_assoc]; rfl⟩

lemma Block.Grows.isCallout {shown : Bool} {b b' : Block} (h : b.Grows shown b') :
    isCallout b' = isCallout b := by
  cases h with
  | leaf hh hl => rw [isCallout_leaf, isCallout_leaf, hl.kind]
  | node => rw [isCallout_node, isCallout_node]

/-- What grows at the end behind a block grows there when both are grouped. -/
lemma GrowsAtEnd.groupAfter {shown : Bool} {bs bs' : List Block}
    (h : GrowsAtEnd shown (Block.Grows shown) bs bs') (last : Block) :
    GrowsAtEnd shown (Block.Grows shown) (groupAfter last bs) (groupAfter last bs') := by
  have hnode {hd hd' : Head} {f : Block.Frame} {kids kids' : List Block} (hf : f.gathers = true)
      (hh : hd.Agrees hd') (hkids : GrowsAtEnd shown (Block.Grows shown) kids kids') :
      Block.Grows shown (.node hd f kids) (.node hd' f kids') :=
    .node hh (fun hitem => absurd hitem (ne_true_of_eq_false (Block.Frame.isItem_of_gathers hf)))
      hkids
  induction h generalizing last with
  | feeds hshown hbs hbs' =>
    obtain ⟨hnot, hgroup⟩ | ⟨hd, hd₁, f, kids, rfl, hf, hh, hgroup⟩ :=
      groupAfter_feeds last hbs
    · obtain ⟨-, hgroup'⟩ | ⟨hd, hd₁, f, kids, rfl, hf, -⟩ := groupAfter_feeds last hbs'
      · rw [hgroup, hgroup']
        exact .cons last (.feeds hshown hbs hbs')
      · exact absurd hf (ne_true_of_eq_false hnot)
    · obtain ⟨hnot, -⟩ | ⟨_, hd₂, _, _, hsame, -, hh', hgroup'⟩ := groupAfter_feeds
        (.node hd f kids) hbs'
      · exact absurd hf (ne_true_of_eq_false hnot)
      · cases hsame
        rw [hgroup, hgroup']
        have hkids := GrowsAtEnd.feeds (R := Block.Grows shown) hshown hbs hbs'
        exact .last (hnode hf ⟨hh'.1.trans hh.1.symm, hh'.2.trans hh.2.symm⟩ (hkids.prepend kids))
  | @last b b' hb =>
    obtain hapart | ⟨hd, f, kids, rfl, hf, hcallout⟩ := groupAfter_cases last b
    · rw [groupAfter_apart hapart, groupAfter_apart (hb.isCallout ▸ hapart)]
      exact .cons last (.last hb)
    · rw [groupAfter_gather hf hcallout, groupAfter_gather hf (hb.isCallout ▸ hcallout)]
      exact .last (hnode hf ⟨rfl, rfl⟩ (.prepend kids (.last hb)))
  | cons b _ ih =>
    obtain hapart | ⟨hd, f, kids, rfl, hf, hcallout⟩ := groupAfter_cases last b
    · rw [groupAfter_apart hapart, groupAfter_apart hapart]
      exact .cons last (ih b)
    · rw [groupAfter_gather hf hcallout, groupAfter_gather hf hcallout]
      exact ih _

lemma groupCallouts_of_newline {bs : List Block} (hbs : ∀ b ∈ bs, b.kind = .newline) :
    groupCallouts bs = bs := by
  cases bs with
  | nil => rfl
  | cons b rest =>
    obtain ⟨hb, hrest⟩ := List.forall_mem_cons.1 hbs
    obtain ⟨-, hgroup⟩ | ⟨h, _, f, kids, rfl, hf, -⟩ := groupAfter_feeds b hrest
    · exact hgroup
    · exact absurd hf (ne_true_of_eq_false (not_callout_of_newline hb).2)

/-- What grows at the end grows there when it is grouped. -/
theorem GrowsAtEnd.groupCallouts {shown : Bool} {bs bs' : List Block}
    (h : GrowsAtEnd shown (Block.Grows shown) bs bs') :
    GrowsAtEnd shown (Block.Grows shown) (groupCallouts bs) (groupCallouts bs') := by
  cases h with
  | feeds hshown hbs hbs' =>
    rw [groupCallouts_of_newline hbs, groupCallouts_of_newline hbs']
    exact .feeds hshown hbs hbs'
  | last hb => exact .last hb
  | cons b h => exact h.groupAfter b

end Grouping

end Docmark
