import Mathlib
import Docmark.Proofs.Inclusion.Sites
import Docmark.Proofs.Outcome

/-!
# What an expanded tree holds

Expanding the directives of a tree moves tokens of other trees into it: the blocks of an included
document, or the text of its headings and paragraphs.  This module follows what a test of tokens
finds: whatever is gathered from the expanded tree was gathered from the tree itself or from a tree
that was loaded into it, and what loading reports is reported.

## Main results

* `reports_expandBlock` — what an expanded tree holds, and what expanding it reports.
-/

namespace Docmark

/-! ## Tests of content -/

/-- A test that finds what stands in the tokens of a source: raw HTML among the blocks, and among
the inline tokens neither texts nor what an expansion puts in; what is inside an inline token does
not count for the token itself. -/
structure Token.IsContentTest {α : Type} (p : Token → Option α) : Prop where
  blockNode : ∀ h f bs, p (.block (.node h f bs)) = none
  blockLeaf : ∀ h c, c.kind ≠ .html → p (.block (.leaf h c)) = none
  inlineNode : ∀ h f ts us, p (.inline (.node h f ts)) = p (.inline (.node h f us))
  included : ∀ h path ts, p (.inline (.node h (.included path) ts)) = none
  text : ∀ h s, p (.inline (.leaf h (.text s))) = none
  raw : ∀ h s, p (.inline (.leaf h (.raw s))) = none

/-- The directive that a token is. -/
def Token.directive? : Token → Option Directive
  | .block (.leaf _ (.directive d)) => some d
  | .inline (.leaf _ (.directive d)) => some d
  | _ => none

/-- The directives in an inline token. -/
def Inline.directives (t : Inline) : List Directive := t.collect Token.directive?

/-- The directives in a tree. -/
def Block.directives (b : Block) : List Directive := b.collect Token.directive?

section Gather

variable {α : Type}

/-- Everything that a test finds in an inline token is as `K` says. -/
def Inline.Holds (p : Token → Option α) (K : α → Prop) (t : Inline) : Prop := ∀ x ∈ t.collect p, K x

/-- Everything that a test finds in a tree is as `K` says. -/
def Block.Holds (p : Token → Option α) (K : α → Prop) (b : Block) : Prop := ∀ x ∈ b.collect p, K x

variable {p : Token → Option α} {K : α → Prop} {x : α}

lemma Inline.holds_leaf {h : Head} {c : Inline.Leaf} :
    (Inline.leaf h c).Holds p K ↔ ∀ x, p (.inline (.leaf h c)) = some x → K x := by
  simp only [Inline.Holds, Inline.mem_collect_leaf]

lemma Inline.holds_node {h : Head} {f : Inline.Frame} {ts : List Inline} :
    (Inline.node h f ts).Holds p K ↔
      (∀ x, p (.inline (.node h f ts)) = some x → K x) ∧ ∀ t ∈ ts, t.Holds p K := by
  simp only [Inline.Holds, Inline.mem_collect_node]
  constructor
  · exact fun hK => ⟨fun x hx => hK x (.inl hx), fun t ht x hx => hK x (.inr ⟨t, ht, hx⟩)⟩
  · rintro ⟨hself, hbelow⟩ x (hx | ⟨t, ht, hx⟩)
    · exact hself x hx
    · exact hbelow t ht x hx

section

variable (hp : Token.IsContentTest p)

include hp

lemma Token.IsContentTest.holds_leaf {h : Head} {c : Block.Leaf} (hc : c.kind ≠ .html) :
    (Block.leaf h c).Holds p K ↔ ∀ ts ∈ c.inlines, ∀ t ∈ ts, t.Holds p K := by
  simp only [Block.Holds, Inline.Holds, Block.mem_collect_leaf, hp.blockLeaf h c hc]
  constructor
  · exact fun hK ts hts t ht x hx => hK x (.inr ⟨ts, hts, t, ht, hx⟩)
  · rintro hK x (hx | ⟨ts, hts, t, ht, hx⟩)
    · cases hx
    · exact hK ts hts t ht x hx

lemma Token.IsContentTest.holds_node {h : Head} {f : Block.Frame} {bs : List Block} :
    (Block.node h f bs).Holds p K ↔ ∀ b ∈ bs, b.Holds p K := by
  simp only [Block.Holds, Block.mem_collect_node, hp.blockNode h f bs]
  constructor
  · exact fun hK b hb x hx => hK x (.inr ⟨b, hb, hx⟩)
  · rintro hK x (hx | ⟨b, hb, hx⟩)
    · cases hx
    · exact hK b hb x hx

end

/-! ## What is put in the place of a directive -/

section Included

variable {root : Block}

lemma Block.mem_collect_of_includedBlocks {b : Block} (hb : b ∈ includedBlocks root)
    (hx : x ∈ b.collect p) : x ∈ root.collect p := by
  unfold includedBlocks at hb
  split at hb
  next h children => exact Block.mem_collect_node.2 (.inr ⟨b, hb, hx⟩)
  next => rwa [List.mem_singleton.1 hb] at hx

lemma Block.mem_collect_of_textInlinesAll {bs : List Block}
    (h : ∀ b ∈ bs, ∀ ts ∈ b.textInlines, ∀ t ∈ ts, x ∈ t.collect p → x ∈ b.collect p)
    {ts : List Inline} (hts : ts ∈ Block.textInlinesAll bs) {t : Inline} (ht : t ∈ ts)
    (hx : x ∈ t.collect p) : ∃ b ∈ bs, x ∈ b.collect p := by
  induction bs with
  | nil => simp [Block.textInlinesAll] at hts
  | cons b bs ih =>
    rw [Block.textInlinesAll, List.mem_append] at hts
    rcases hts with hts | hts
    · exact ⟨b, List.mem_cons_self, h b List.mem_cons_self ts hts t ht hx⟩
    · obtain ⟨d, hd, hxd⟩ := ih (fun d hd => h d (List.mem_cons_of_mem _ hd)) hts
      exact ⟨d, List.mem_cons_of_mem _ hd, hxd⟩

lemma Block.mem_collect_of_textInlines (root : Block) :
    ∀ ts ∈ root.textInlines, ∀ t ∈ ts, x ∈ t.collect p → x ∈ root.collect p := by
  induction root using Block.induction with
  | leaf h c =>
    intro ts hts t ht hx
    have hmem : ts ∈ c.inlines := by
      have hrow {content : List Inline}
          (hcontent : ts ∈ if content.isEmpty then [] else [content]) : ts ∈ [content] := by
        split at hcontent
        · cases hcontent
        · exact hcontent
      cases c <;> first | exact hrow hts | cases hts
    exact Block.mem_collect_leaf.2 (.inr ⟨ts, hmem, t, ht, hx⟩)
  | node h f bs ih =>
    intro ts hts t ht hx
    rw [Block.textInlines] at hts
    exact Block.mem_collect_node.2 (.inr (Block.mem_collect_of_textInlinesAll ih hts ht hx))

/-- A blank is put between sequences, and nothing else is added. -/
lemma mem_spaced {rows : List (List Inline)} {t : Inline} (h : t ∈ spaced rows) :
    (∃ ts ∈ rows, t ∈ ts) ∨ ∃ h s, t = .leaf h (.text s) := by
  induction rows using spaced.induct with
  | case1 => simp [spaced] at h
  | case2 rest ih =>
    rw [spaced] at h
    exact (ih h).imp_left fun ⟨ts, hts, ht⟩ => ⟨ts, List.mem_cons_of_mem _ hts, ht⟩
  | case3 u us rest ih =>
    rw [spaced] at h
    rcases List.mem_cons.1 h with rfl | h
    · exact .inr ⟨_, _, rfl⟩
    · rcases List.mem_append.1 h with h | h
      · exact .inl ⟨u :: us, List.mem_cons_self, h⟩
      · exact (ih h).imp_left fun ⟨ts, hts, ht⟩ => ⟨ts, List.mem_cons_of_mem _ hts, ht⟩

lemma Token.IsContentTest.mem_collect_of_includedInlines (hp : Token.IsContentTest p) {t : Inline}
    (ht : t ∈ includedInlines root) (hx : x ∈ t.collect p) : x ∈ root.collect p := by
  have hrows := Block.mem_collect_of_textInlines (p := p) (x := x) root
  unfold includedInlines at ht
  split at ht
  next => cases ht
  next first rest heq =>
    rw [heq] at hrows
    rcases List.mem_append.1 ht with ht | ht
    · exact hrows first List.mem_cons_self t ht hx
    · rcases mem_spaced ht with ⟨ts, hts, ht⟩ | ⟨h, s, rfl⟩
      · exact hrows ts (List.mem_cons_of_mem _ hts) t ht hx
      · rw [Inline.mem_collect_leaf, hp.text] at hx
        cases hx

end Included

/-! ## Expanding a tree -/

variable {load : Loader BuildM} {S : Directive → Set Diagnostic}

/-- A loader that supplies, for a directive, a tree in which everything found is as `K` says, and
reports what `S` says. -/
def Loader.Supplies (load : Loader BuildM) (p : Token → Option α) (K : α → Prop)
    (S : Directive → Set Diagnostic) (d : Directive) : Prop :=
  ∀ span, Reports (load d span)
    (fun found => ∀ path root, found = some (path, root) → root.Holds p K) (S d)

/-- What is due to be reported for some directives. -/
def due (S : Directive → Set Diagnostic) (ds : List Directive) : Set Diagnostic :=
  {r | ∃ d ∈ ds, r ∈ S d}

lemma due_singleton_subset (d : Directive) : due S [d] ⊆ S d ∪ ∅ := by
  rintro r ⟨d', hd', hr⟩
  rw [List.mem_singleton.1 hd'] at hr
  exact .inl hr

lemma reports_expandInlines_of {ts : List Inline}
    (h : ∀ t ∈ ts, Reports (expandInline load t) (Inline.Holds p K) (due S t.directives)) :
    Reports (expandInlines load ts) (fun ts' => ∀ t' ∈ ts', t'.Holds p K)
      {r | ∃ t ∈ ts, r ∈ due S t.directives} := by
  induction ts with
  | nil =>
    rw [expandInlines]
    exact (Reports.pure (by simp)).imp (fun _ h => h) (by simp)
  | cons t ts ih =>
    rw [expandInlines]
    have hrest := ih fun u hu => h u (List.mem_cons_of_mem _ hu)
    refine Reports.imp ((h t List.mem_cons_self).bind fun t' ht' =>
      hrest.bind fun ts' hts' => Reports.pure (List.forall_mem_cons.2 ⟨ht', hts'⟩))
      (fun _ h => h) ?_
    rintro r ⟨u, hu, hr⟩
    rcases List.mem_cons.1 hu with rfl | hu
    · exact .inl hr
    · exact .inr (.inl ⟨u, hu, hr⟩)

lemma reports_expandBlocks_of {bs : List Block}
    (h : ∀ b ∈ bs, Reports (expandBlock load b) (Block.Holds p K) (due S b.directives)) :
    Reports (expandBlocks load bs) (fun bs' => ∀ b' ∈ bs', b'.Holds p K)
      {r | ∃ b ∈ bs, r ∈ due S b.directives} := by
  induction bs with
  | nil =>
    rw [expandBlocks]
    exact (Reports.pure (by simp)).imp (fun _ h => h) (by simp)
  | cons b bs ih =>
    rw [expandBlocks]
    have hrest := ih fun d hd => h d (List.mem_cons_of_mem _ hd)
    refine Reports.imp ((h b List.mem_cons_self).bind fun b' hb' =>
      hrest.bind fun bs' hbs' => Reports.pure (List.forall_mem_cons.2 ⟨hb', hbs'⟩))
      (fun _ h => h) ?_
    rintro r ⟨d, hd, hr⟩
    rcases List.mem_cons.1 hd with rfl | hd
    · exact .inl hr
    · exact .inr (.inl ⟨d, hd, hr⟩)

section

variable (hp : Token.IsContentTest p)

include hp

lemma reports_expandInline (t : Inline) (hown : t.Holds p K)
    (hload : ∀ d ∈ t.directives, load.Supplies p K S d) :
    Reports (expandInline load t) (Inline.Holds p K) (due S t.directives) := by
  induction t using Inline.induction with
  | leaf h c =>
    have hkeep {c : Inline.Leaf} (hown : (Inline.leaf h c).Holds p K)
        (hc : Token.directive? (.inline (.leaf h c)) = none) :
        Reports (Pure.pure (Inline.leaf h c)) (Inline.Holds p K)
          (due S (Inline.leaf h c).directives) := by
      refine (Reports.pure hown).imp (fun _ h => h) ?_
      rintro r ⟨d, hd, -⟩
      rw [Inline.directives, Inline.mem_collect_leaf, hc] at hd
      cases hd
    cases c with
    | directive d =>
      have hself : (Inline.leaf h (.directive d)).directives = [d] := rfl
      rw [hself] at hload ⊢
      rw [expandInline]
      have hd := hload d (List.mem_singleton_self d) h.span
      refine Reports.imp (Q := Inline.Holds p K) (hd.bind fun found hfound => ?_) (fun _ h => h)
        (due_singleton_subset d)
      cases found with
      | none =>
        refine Reports.pure (Inline.holds_leaf.2 fun x hx => ?_)
        rw [hp.raw] at hx
        cases hx
      | some found =>
        have hroot : found.2.Holds p K := hfound found.1 found.2 rfl
        refine Reports.pure (Inline.holds_node.2 ⟨fun x hx => ?_, fun t ht x hx => ?_⟩)
        · rw [hp.included] at hx
          cases hx
        · exact hroot x (hp.mem_collect_of_includedInlines ht hx)
    | _ => exact hkeep hown rfl
  | node h f ts ih =>
    obtain ⟨hself, hbelow⟩ := Inline.holds_node.1 hown
    have hchild : ∀ t ∈ ts, Reports (expandInline load t) (Inline.Holds p K) (due S t.directives) :=
      fun t ht => ih t ht (hbelow t ht) fun d hd =>
        hload d (Inline.mem_collect_node.2 (.inr ⟨t, ht, hd⟩))
    rw [expandInline]
    refine Reports.imp (Q := Inline.Holds p K) (D := _ ∪ ∅)
      ((reports_expandInlines_of hchild).bind fun ts' hts' => ?_) (fun _ h => h) ?_
    · refine Reports.pure (Inline.holds_node.2 ⟨fun x hx => hself x ?_, hts'⟩)
      rwa [hp.inlineNode h f ts ts']
    · rintro r ⟨d, hd, hr⟩
      rcases Inline.mem_collect_node.1 hd with hd | ⟨t, ht, hd⟩
      · cases hd
      · exact .inl ⟨t, ht, d, hd, hr⟩

lemma reports_expandInlines {ts : List Inline} (hown : ∀ t ∈ ts, t.Holds p K)
    (hload : ∀ t ∈ ts, ∀ d ∈ t.directives, load.Supplies p K S d) :
    Reports (expandInlines load ts) (fun ts' => ∀ t' ∈ ts', t'.Holds p K)
      {r | ∃ t ∈ ts, r ∈ due S t.directives} :=
  reports_expandInlines_of fun t ht => reports_expandInline hp t (hown t ht) (hload t ht)

/-- A row of a table, or any sequences of inline tokens. -/
lemma reports_expandRow (row : List (List Inline)) (hown : ∀ ts ∈ row, ∀ t ∈ ts, t.Holds p K)
    (hload : ∀ ts ∈ row, ∀ t ∈ ts, ∀ d ∈ t.directives, load.Supplies p K S d) :
    Reports (row.mapM (expandInlines load)) (fun row' => ∀ ts' ∈ row', ∀ t' ∈ ts', t'.Holds p K)
      {r | ∃ ts ∈ row, ∃ t ∈ ts, r ∈ due S t.directives} := by
  refine (Reports.mapM row fun ts hts =>
    reports_expandInlines hp (hown ts hts) (hload ts hts)).imp ?_ fun r hr => hr
  intro row' hrow ts' hts'
  obtain ⟨ts, -, hall⟩ := exists_of_mem_forall₂ hrow ts' hts'
  exact hall

/-- A leaf around one sequence of inline tokens. -/
lemma reports_expandContent {h : Head} {build : List Inline → Block.Leaf} {content : List Inline}
    (hkind : ∀ ts, (build ts).kind ≠ .html) (hinlines : ∀ ts, (build ts).inlines = [ts])
    (hown : (Block.leaf h (build content)).Holds p K)
    (hload : ∀ ts ∈ (build content).inlines, ∀ t ∈ ts, ∀ d ∈ t.directives,
      load.Supplies p K S d) :
    Reports (expandInlines load content >>= fun ts => Pure.pure (build ts))
      (fun c => (Block.leaf h c).Holds p K)
      {r | ∃ ts ∈ (build content).inlines, ∃ t ∈ ts, r ∈ due S t.directives} := by
  rw [hp.holds_leaf (hkind content), hinlines] at hown
  rw [hinlines] at hload ⊢
  have hcontent := reports_expandInlines hp (hown content List.mem_cons_self)
    (hload content List.mem_cons_self)
  refine (hcontent.bind fun ts hts => Reports.pure ?_).imp (fun _ h => h) ?_
  · rw [hp.holds_leaf (hkind ts), hinlines]
    simpa using hts
  · rintro r ⟨ts, hts, hr⟩
    rw [List.mem_singleton.1 hts] at hr
    exact .inl hr

lemma reports_expandTable {h : Head} {align : List (Option Alignment)}
    {header : List (List Inline)} {rows : List (List (List Inline))}
    (hown : (Block.leaf h (.table align header rows)).Holds p K)
    (hload : ∀ ts ∈ header ++ rows.flatten, ∀ t ∈ ts, ∀ d ∈ t.directives,
      load.Supplies p K S d) :
    Reports (expandLeaf load (.table align header rows)) (fun c => (Block.leaf h c).Holds p K)
      {r | ∃ ts ∈ header ++ rows.flatten, ∃ t ∈ ts, r ∈ due S t.directives} := by
  rw [hp.holds_leaf (by simp [Block.Leaf.kind])] at hown
  have hcell {row : List (List Inline)} (hrow : row ∈ rows) {ts : List Inline} (hts : ts ∈ row) :
      ts ∈ header ++ rows.flatten :=
    List.mem_append_right _ (List.mem_flatten.2 ⟨row, hrow, hts⟩)
  have hheader := reports_expandRow hp header
    (fun ts hts => hown ts (List.mem_append_left _ hts))
    fun ts hts => hload ts (List.mem_append_left _ hts)
  have hrows := Reports.mapM rows fun row hrow => reports_expandRow hp row
    (fun ts hts => hown ts (hcell hrow hts)) fun ts hts => hload ts (hcell hrow hts)
  rw [expandLeaf]
  refine (hheader.bind fun header' hheader' => hrows.bind fun rows' hrows' =>
    Reports.pure ?_).imp (fun _ h => h) ?_
  · rw [hp.holds_leaf (by simp [Block.Leaf.kind])]
    intro ts hts
    rcases List.mem_append.1 hts with hts | hts
    · exact hheader' ts hts
    · obtain ⟨row', hrow', hts⟩ := List.mem_flatten.1 hts
      obtain ⟨row, -, hall⟩ := exists_of_mem_forall₂ hrows' row' hrow'
      exact hall ts hts
  · rintro r ⟨ts, hts, hr⟩
    rcases List.mem_append.1 hts with hts | hts
    · exact .inl ⟨ts, hts, hr⟩
    · obtain ⟨row, hrow, hts⟩ := List.mem_flatten.1 hts
      exact .inr (.inl ⟨row, hrow, ts, hts, hr⟩)

lemma reports_expandLeaf (h : Head) (c : Block.Leaf) (hown : (Block.leaf h c).Holds p K)
    (hload : ∀ ts ∈ c.inlines, ∀ t ∈ ts, ∀ d ∈ t.directives, load.Supplies p K S d) :
    Reports (expandLeaf load c) (fun c' => (Block.leaf h c').Holds p K)
      {r | ∃ ts ∈ c.inlines, ∃ t ∈ ts, r ∈ due S t.directives} := by
  have hnone {c : Block.Leaf} (hc : c.inlines = []) (hown : (Block.leaf h c).Holds p K) :
      Reports (Pure.pure c) (fun c' => (Block.leaf h c').Holds p K)
        {r | ∃ ts ∈ c.inlines, ∃ t ∈ ts, r ∈ due S t.directives} := by
    refine (Reports.pure (Q := fun c' => (Block.leaf h c').Holds p K) hown).imp (fun _ h => h) ?_
    rintro r ⟨ts, hts, -⟩
    rw [hc] at hts
    cases hts
  cases c with
  | heading depth id content =>
    exact reports_expandContent hp (fun _ => by simp [Block.Leaf.kind]) (fun _ => rfl) hown hload
  | paragraph content =>
    exact reports_expandContent hp (fun _ => by simp [Block.Leaf.kind]) (fun _ => rfl) hown hload
  | text content =>
    exact reports_expandContent hp (fun _ => by simp [Block.Leaf.kind]) (fun _ => rfl) hown hload
  | table align header rows => exact reports_expandTable hp hown hload
  | _ => exact hnone rfl hown

/-- **Expansion keeps what is there and reports.**  What is found in an expanded tree comes from the
tree or from what was loaded into it, and everything due for its directives is reported. -/
theorem reports_expandBlock (b : Block) (hown : b.Holds p K)
    (hload : ∀ d ∈ b.directives, load.Supplies p K S d) :
    Reports (expandBlock load b) (Block.Holds p K) (due S b.directives) := by
  induction b using Block.induction with
  | leaf h c =>
    by_cases hc : c.kind = .directive
    · obtain ⟨d, rfl⟩ := Block.Leaf.exists_of_kind_directive hc
      have hself : (Block.leaf h (.directive d)).directives = [d] := rfl
      rw [hself] at hload ⊢
      rw [expandBlock]
      have hd := hload d (List.mem_singleton_self d) h.span
      refine Reports.imp (Q := Block.Holds p K) (hd.bind fun found hfound => ?_) (fun _ h => h)
        (due_singleton_subset d)
      cases found with
      | none =>
        refine Reports.pure ((hp.holds_leaf (by simp [Block.Leaf.kind])).2 fun ts hts => ?_)
        cases hts
      | some found =>
        have hroot : found.2.Holds p K := hfound found.1 found.2 rfl
        refine Reports.pure (hp.holds_node.2 fun b hb x hx => ?_)
        exact hroot x (Block.mem_collect_of_includedBlocks hb hx)
    · have hdirective : Token.directive? (.block (.leaf h c)) = none := by
        cases c <;> first | rfl | exact absurd rfl hc
      have hinlines := fun ts hts t ht d hd =>
        hload d (Block.mem_collect_leaf.2 (.inr ⟨ts, hts, t, ht, hd⟩))
      rw [expandBlock_leaf hc]
      refine ((reports_expandLeaf hp h c hown hinlines).bind fun c' hc' => Reports.pure hc').imp
        (fun _ h => h) ?_
      rintro r ⟨d, hd, hr⟩
      rcases Block.mem_collect_leaf.1 hd with hd | ⟨ts, hts, t, ht, hd⟩
      · rw [hdirective] at hd
        cases hd
      · exact .inl ⟨ts, hts, t, ht, d, hd, hr⟩
  | node h f bs ih =>
    have hbelow := hp.holds_node.1 hown
    have hchild : ∀ b ∈ bs, Reports (expandBlock load b) (Block.Holds p K) (due S b.directives) :=
      fun b hb => ih b hb (hbelow b hb) fun d hd =>
        hload d (Block.mem_collect_node.2 (.inr ⟨b, hb, hd⟩))
    rw [expandBlock]
    refine Reports.imp (Q := Block.Holds p K) (D := _ ∪ ∅)
      ((reports_expandBlocks_of hchild).bind fun bs' hbs' =>
        Reports.pure (hp.holds_node.2 hbs')) (fun _ h => h) ?_
    rintro r ⟨d, hd, hr⟩
    rcases Block.mem_collect_node.1 hd with hd | ⟨b, hb, hd⟩
    · cases hd
    · exact .inl ⟨b, hb, d, hd, hr⟩

end

end Gather

end Docmark
