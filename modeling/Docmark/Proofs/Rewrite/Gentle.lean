import Mathlib
import Docmark.Proofs.Outcome
import Docmark.Proofs.Token.Height
import Docmark.Rewrite.HeadingId
import Docmark.Rewrite.LinkRebase

/-!
# Gentle rewriters

A rewriter is gentle if it keeps every token that it is offered, perhaps changed, and makes no tree
higher under any weight: it adds no token of a kind that was not there.  The rewriters that a build
applies by itself are gentle, and the pass of a gentle rewriter always succeeds.
-/

namespace Docmark

/-! ## Rewriters -/

namespace Rewriter

variable {σ : Type}

/-- A rewriter that removes no token and makes none higher. -/
structure IsGentle (w : Rewriter σ) : Prop where
  block : ∀ file b, Yields (w.block file b) fun r =>
    ∃ b', r = some b' ∧ ∀ wt, b'.height wt ≤ b.height wt
  inline : ∀ file t, Yields (w.inline file t) fun r =>
    ∃ t', r = some t' ∧ ∀ wt, t'.height wt ≤ t.height wt

variable {w : Rewriter σ} {file : Option Path}

/-! ### Inlines -/

lemma yields_visitInlines_of {ts : List Inline}
    (h : ∀ t ∈ ts, Yields (w.visitInline file t) fun r =>
      ∃ t', r = some t' ∧ ∀ wt, t'.height wt ≤ t.height wt) :
    Yields (w.visitInlines file ts) fun ts' =>
      ∀ wt, Inline.heightAll wt ts' ≤ Inline.heightAll wt ts := by
  induction ts with
  | nil =>
    rw [visitInlines]
    exact Yields.pure fun wt => le_rfl
  | cons t ts ih =>
    rw [visitInlines]
    refine Yields.bind (h t List.mem_cons_self) ?_
    rintro _ ⟨t', rfl, ht⟩
    refine Yields.bind (ih fun u hu => h u (List.mem_cons_of_mem _ hu)) fun ts' hts => ?_
    refine Yields.pure fun wt => ?_
    simpa using max_le_max (ht wt) (hts wt)

section Gentle

variable (hw : w.IsGentle)

include hw

lemma yields_visitInline (t : Inline) :
    Yields (w.visitInline file t) fun r =>
      ∃ t', r = some t' ∧ ∀ wt, t'.height wt ≤ t.height wt := by
  induction t using Inline.induction with
  | leaf h c =>
    rw [visitInline]
    exact hw.inline file _
  | node h f ts ih =>
    rw [visitInline]
    refine Yields.bind (yields_visitInlines_of ih) fun ts' hts => ?_
    intro s
    obtain ⟨t', ht', hle⟩ := hw.inline file (.node h f ts') s
    refine ⟨t', ht', fun wt => (hle wt).trans ?_⟩
    rw [Inline.height_node, Inline.height_node]
    exact Nat.add_le_add_left (hts wt) _

lemma yields_visitInlines (ts : List Inline) :
    Yields (w.visitInlines file ts) fun ts' =>
      ∀ wt, Inline.heightAll wt ts' ≤ Inline.heightAll wt ts :=
  yields_visitInlines_of fun t _ => yields_visitInline hw t

lemma yields_visitRows (rows : List (List Inline)) :
    Yields (rows.mapM (w.visitInlines file)) fun rows' =>
      ∀ wt, Inline.heightRows wt rows' ≤ Inline.heightRows wt rows := by
  intro s wt
  have hrows := Yields.mapM (f := w.visitInlines file) rows
    (fun ts _ => yields_visitInlines hw ts) s
  exact Inline.heightRows_le_of_forall₂ (hrows.imp fun _ _ h => h wt)

/-! ### Blocks -/

lemma yields_visitLeaf (c : Block.Leaf) :
    Yields (w.visitLeaf file c) fun c' => ∀ wt, c'.height wt ≤ c.height wt := by
  have hrow {c : List Inline → Block.Leaf} (tag : BlockTag) {content : List Inline}
      (hkind : ∀ ts, (c ts).kind = tag) (hinlines : ∀ ts, (c ts).inlines = [ts]) :
      Yields (c <$> w.visitInlines file content) fun c' =>
        ∀ wt, c'.height wt ≤ (c content).height wt := by
    refine Yields.map (yields_visitInlines hw content) fun ts hts wt => ?_
    simpa [Block.Leaf.height, hkind, hinlines] using hts wt
  cases c with
  | heading depth id content => exact hrow .heading (fun _ => rfl) fun _ => rfl
  | paragraph content => exact hrow .paragraph (fun _ => rfl) fun _ => rfl
  | text content => exact hrow .text (fun _ => rfl) fun _ => rfl
  | table align header rows =>
    rw [visitLeaf]
    refine Yields.bind (yields_visitRows hw header) fun header' hheader => ?_
    have hcells := Yields.mapM (f := (·.mapM (w.visitInlines file))) rows
      fun row _ => yields_visitRows hw row
    refine Yields.bind hcells fun rows' hrows => Yields.pure fun wt => ?_
    have hflat := Inline.heightRows_flatten_le_of_forall₂ (hrows.imp fun _ _ h => h wt)
    simp only [Block.Leaf.height, Block.Leaf.inlines, Inline.heightRows_append]
    exact Nat.add_le_add_left (max_le_max (hheader wt) hflat) _
  | _ => exact Yields.pure fun wt => le_rfl

omit hw in
lemma yields_visitBlocks_of {bs : List Block}
    (h : ∀ b ∈ bs, Yields (w.visitBlock file b) fun r =>
      ∃ b', r = some b' ∧ ∀ wt, b'.height wt ≤ b.height wt) :
    Yields (w.visitBlocks file bs) fun bs' =>
      ∀ wt, Block.heightAll wt bs' ≤ Block.heightAll wt bs := by
  induction bs with
  | nil =>
    rw [visitBlocks]
    exact Yields.pure fun wt => le_rfl
  | cons b bs ih =>
    rw [visitBlocks]
    refine Yields.bind (h b List.mem_cons_self) ?_
    rintro _ ⟨b', rfl, hb⟩
    refine Yields.bind (ih fun d hd => h d (List.mem_cons_of_mem _ hd)) fun bs' hbs => ?_
    refine Yields.pure fun wt => ?_
    simpa using max_le_max (hb wt) (hbs wt)

lemma yields_visitBlock (b : Block) :
    Yields (w.visitBlock file b) fun r =>
      ∃ b', r = some b' ∧ ∀ wt, b'.height wt ≤ b.height wt := by
  induction b using Block.induction with
  | leaf h c =>
    rw [visitBlock]
    refine Yields.bind (yields_visitLeaf hw c) fun c' hc => ?_
    intro s
    obtain ⟨b', hb', hle⟩ := hw.block file (.leaf h c') s
    refine ⟨b', hb', fun wt => (hle wt).trans ?_⟩
    rw [Block.height_leaf, Block.height_leaf]
    exact hc wt
  | node h f bs ih =>
    rw [visitBlock]
    refine Yields.bind (yields_visitBlocks_of ih) fun bs' hbs => ?_
    intro s
    obtain ⟨b', hb', hle⟩ := hw.block file (.node h f bs') s
    refine ⟨b', hb', fun wt => (hle wt).trans ?_⟩
    rw [Block.height_node, Block.height_node]
    exact Nat.add_le_add_left (hbs wt) _

lemma yields_visitContents (b : Block) :
    Yields (w.visitContents file b) fun b' => ∀ wt, b'.height wt ≤ b.height wt := by
  cases b with
  | leaf h c =>
    refine Yields.map (yields_visitLeaf hw c) fun c' hc wt => ?_
    rw [Block.height_leaf, Block.height_leaf]
    exact hc wt
  | node h f bs =>
    refine Yields.map (yields_visitBlocks_of fun b _ => yields_visitBlock hw b) fun bs' hbs wt => ?_
    rw [Block.height_node, Block.height_node]
    exact Nat.add_le_add_left (hbs wt) _

lemma yields_visit (root : Block) :
    Yields (w.visit file root) fun r =>
      ∃ root', r = some root' ∧ ∀ wt, root'.height wt ≤ root.height wt := by
  refine Yields.bind (Q := fun _ => True) (fun _ => trivial) fun _ _ => ?_
  refine Yields.bind (hw.block file root) ?_
  rintro _ ⟨root₁, rfl, h₁⟩
  refine Yields.bind (yields_visitContents hw root₁) fun root₂ h₂ => ?_
  refine Yields.bind (Q := fun _ => True) (fun _ => trivial) fun _ _ => ?_
  exact Yields.pure ⟨root₂, rfl, fun wt => (h₂ wt).trans (h₁ wt)⟩

end Gentle

end Rewriter

/-! ## Passes -/

/-- A pass that always succeeds and makes no tree higher. -/
def Pass.IsGentle (pass : Pass) : Prop :=
  ∀ file root, Succeeds (pass file root) fun root' => ∀ wt, root'.height wt ≤ root.height wt

lemma Rewriter.IsGentle.pass {σ : Type} {w : Rewriter σ} (hw : w.IsGentle) :
    Pass.IsGentle w.pass := by
  intro file root j
  have hvisit : Yields (w.visit file root) _ := Rewriter.yields_visit hw root
  obtain ⟨root', hroot, hle⟩ := hvisit (w.initial, j)
  refine ⟨root', ?_, hle⟩
  cases hvisit : w.visit file root (w.initial, j) with
  | mk r s =>
    rw [hvisit] at hroot
    cases hroot
    simp only [Rewriter.pass, hvisit]

lemma runPasses_isGentle {passes : List Pass} (h : ∀ p ∈ passes, p.IsGentle) :
    Pass.IsGentle (runPasses passes) := by
  intro file
  induction passes with
  | nil => exact fun root => Succeeds.pure fun wt => le_rfl
  | cons p passes ih =>
    intro root
    refine Succeeds.bind (h p List.mem_cons_self file root) fun root₁ h₁ => ?_
    intro j
    obtain ⟨root₂, h₂, hle⟩ := ih (fun q hq => h q (List.mem_cons_of_mem _ hq)) root₁ j
    exact ⟨root₂, h₂, fun wt => (hle wt).trans (h₁ wt)⟩

/-! ## The rewriters of a build -/

lemma leadingAnchor?_height_le {wt : Weight} {content : List Inline} {p : Text × List Inline}
    (h : leadingAnchor? content = some p) :
    Inline.heightAll wt p.2 ≤ Inline.heightAll wt content := by
  simp only [leadingAnchor?] at h
  split at h
  next =>
    split at h
    next =>
      obtain ⟨id, -, rfl⟩ := Option.map_eq_some_iff.1 h
      simp only [Inline.heightAll_cons]
      omega
    next => cases h
  next => cases h

lemma heading_height_le {wt : Weight} {h : Head} {depth : Nat} {id id' : Option Text}
    {content content' : List Inline}
    (hle : Inline.heightAll wt content' ≤ Inline.heightAll wt content) :
    (Block.leaf h (.heading depth id' content')).height wt ≤
      (Block.leaf h (.heading depth id content)).height wt := by
  simpa [Block.Leaf.height, Block.Leaf.kind, Block.Leaf.inlines] using hle

lemma headingIdRewriter_isGentle : headingIdRewriter.IsGentle where
  block _ b := by
    have hkeep : Yields (S := UsedIds × Journal) (Pure.pure (some b)) fun r =>
        ∃ b', r = some b' ∧ ∀ wt, b'.height wt ≤ b.height wt :=
      Yields.pure ⟨b, rfl, fun _ => le_rfl⟩
    cases b with
    | node h f bs => exact hkeep
    | leaf h c =>
      cases c with
      | heading depth id content =>
        cases id with
        | some id => exact hkeep
        | none =>
          intro s
          refine ⟨_, rfl, fun wt => heading_height_le ?_⟩
          cases hanchor : leadingAnchor? content with
          | none => exact le_rfl
          | some p => exact leadingAnchor?_height_le hanchor
      | _ => exact hkeep
  inline _ t := Yields.pure ⟨t, rfl, fun _ => le_rfl⟩

lemma validatorGroup_isGentle (vs : List Validator) : (Validator.group vs).IsGentle where
  block _ b := fun _ => ⟨b, rfl, fun _ => le_rfl⟩
  inline _ t := fun _ => ⟨t, rfl, fun _ => le_rfl⟩

lemma LinkRebase.rewriter_isGentle (r : LinkRebase) : r.rewriter.IsGentle where
  block _ b := Yields.pure ⟨b, rfl, fun _ => le_rfl⟩
  inline _ t := by
    have hkeep : Yields (S := Unit × Journal) (Pure.pure (some t)) fun r =>
        ∃ t', r = some t' ∧ ∀ wt, t'.height wt ≤ t.height wt :=
      Yields.pure ⟨t, rfl, fun _ => le_rfl⟩
    cases t with
    | leaf h c =>
      cases c with
      | image src title alt =>
        exact Yields.pure ⟨_, rfl, fun wt => by simp [Inline.Leaf.kind]⟩
      | _ => exact hkeep
    | node h f ts =>
      cases f with
      | link href title => exact Yields.pure ⟨_, rfl, fun wt => by simp [Inline.Frame.kind]⟩
      | _ => exact hkeep

end Docmark
