import Mathlib
import Docmark.Proofs.Outcome
import Docmark.Proofs.Token.Nodes
import Docmark.Rewrite.HeadingId

/-!
# Quiet rewriters

A rewriter is quiet if it neither reads nor changes the journal: what it makes of a document depends
on the document alone, and nothing is reported on the way.  The one that gives headings their ids is
quiet, so the tree of a file does not depend on what was found in other files before it.
-/

namespace Docmark

/-! ## Quiet actions -/

section Quiet

variable {σ α β : Type}

/-- An action that neither reads nor changes the journal. -/
def Quiet (a : RewriteM σ α) : Prop := ∀ s, ∃ v s', ∀ j, a (s, j) = (v, s', j)

lemma Quiet.pure (v : α) : Quiet (Pure.pure v : RewriteM σ α) := fun s => ⟨v, s, fun _ => rfl⟩

lemma Quiet.bind {a : RewriteM σ α} {f : α → RewriteM σ β} (ha : Quiet a) (hf : ∀ v, Quiet (f v)) :
    Quiet (a >>= f) := by
  intro s
  obtain ⟨v, s', ha⟩ := ha s
  obtain ⟨w, s'', hf⟩ := hf v s'
  refine ⟨w, s'', fun j => ?_⟩
  have hstep : (a >>= f) (s, j) = f (a (s, j)).1 (a (s, j)).2 := rfl
  rw [hstep, ha j, hf j]

lemma Quiet.map {a : RewriteM σ α} (f : α → β) (ha : Quiet a) : Quiet (f <$> a) := by
  intro s
  obtain ⟨v, s', ha⟩ := ha s
  refine ⟨f v, s', fun j => ?_⟩
  have hstep : (f <$> a) (s, j) = (f (a (s, j)).1, (a (s, j)).2) := rfl
  rw [hstep, ha j]

lemma Quiet.mapM {f : α → RewriteM σ β} (as : List α) (h : ∀ a ∈ as, Quiet (f a)) :
    Quiet (as.mapM f) := by
  induction as with
  | nil => exact Quiet.pure _
  | cons a as ih =>
    rw [List.mapM_cons]
    have hrest := ih fun a' ha' => h a' (List.mem_cons_of_mem _ ha')
    exact (h a List.mem_cons_self).bind fun b => hrest.bind fun bs => Quiet.pure _

end Quiet

/-! ## Quiet walks -/

namespace Rewriter

variable {σ : Type}

/-- A rewriter of which no part reads or changes the journal. -/
structure IsQuiet (w : Rewriter σ) : Prop where
  before : ∀ file b, Quiet (w.before file b)
  block : ∀ file b, Quiet (w.block file b)
  inline : ∀ file t, Quiet (w.inline file t)
  after : ∀ file b, Quiet (w.after file b)

variable {w : Rewriter σ} {file : Option Path}

lemma quiet_visitInlines_of {ts : List Inline} (h : ∀ t ∈ ts, Quiet (w.visitInline file t)) :
    Quiet (w.visitInlines file ts) := by
  induction ts with
  | nil =>
    rw [visitInlines]
    exact Quiet.pure _
  | cons t ts ih =>
    rw [visitInlines]
    have hrest := ih fun u hu => h u (List.mem_cons_of_mem _ hu)
    exact (h t List.mem_cons_self).bind fun r => hrest.bind fun rs => Quiet.pure _

section

variable (hw : w.IsQuiet)

include hw

lemma quiet_visitInline (t : Inline) : Quiet (w.visitInline file t) := by
  induction t using Inline.induction with
  | leaf h c =>
    rw [visitInline]
    exact hw.inline file _
  | node h f ts ih =>
    rw [visitInline]
    exact (quiet_visitInlines_of ih).bind fun _ => hw.inline file _

lemma quiet_visitInlines (ts : List Inline) : Quiet (w.visitInlines file ts) :=
  quiet_visitInlines_of fun t _ => quiet_visitInline hw t

lemma quiet_visitLeaf (c : Block.Leaf) : Quiet (w.visitLeaf file c) := by
  have hrow (row : List (List Inline)) : Quiet (row.mapM (w.visitInlines file)) :=
    Quiet.mapM row fun ts _ => quiet_visitInlines hw ts
  cases c with
  | heading depth id content => exact (quiet_visitInlines hw content).map _
  | paragraph content => exact (quiet_visitInlines hw content).map _
  | text content => exact (quiet_visitInlines hw content).map _
  | table align header rows =>
    rw [visitLeaf]
    refine (hrow header).bind fun header' => ?_
    exact (Quiet.mapM rows fun row _ => hrow row).bind fun rows' => Quiet.pure _
  | _ => exact Quiet.pure _

omit hw in
lemma quiet_visitBlocks_of {bs : List Block} (h : ∀ b ∈ bs, Quiet (w.visitBlock file b)) :
    Quiet (w.visitBlocks file bs) := by
  induction bs with
  | nil =>
    rw [visitBlocks]
    exact Quiet.pure _
  | cons b bs ih =>
    rw [visitBlocks]
    have hrest := ih fun d hd => h d (List.mem_cons_of_mem _ hd)
    exact (h b List.mem_cons_self).bind fun r => hrest.bind fun rs => Quiet.pure _

lemma quiet_visitBlock (b : Block) : Quiet (w.visitBlock file b) := by
  induction b using Block.induction with
  | leaf h c =>
    rw [visitBlock]
    exact (quiet_visitLeaf hw c).bind fun _ => hw.block file _
  | node h f bs ih =>
    rw [visitBlock]
    exact (quiet_visitBlocks_of ih).bind fun _ => hw.block file _

lemma quiet_visitContents (b : Block) : Quiet (w.visitContents file b) := by
  cases b with
  | leaf h c => exact (quiet_visitLeaf hw c).map _
  | node h f bs => exact (quiet_visitBlocks_of fun b _ => quiet_visitBlock hw b).map _

lemma quiet_visit (root : Block) : Quiet (w.visit file root) := by
  refine (hw.before file root).bind fun _ => (hw.block file root).bind fun r => ?_
  cases r with
  | none => exact Quiet.pure _
  | some root =>
    refine (quiet_visitContents hw root).bind fun root => ?_
    exact (hw.after file root).bind fun _ => Quiet.pure _

/-- **A quiet pass leaves the journal alone.**  What it makes of a tree is the same after any
journal, and nothing is added. -/
theorem IsQuiet.pass (file : Option Path) (root : Block) :
    ∃ r, ∀ j, w.pass file root j = (r, j) := by
  have hquiet : Quiet (w.visit file root) := quiet_visit hw root
  obtain ⟨v, s, hvisit⟩ := hquiet w.initial
  cases v with
  | none => exact ⟨.error .rootRemoved, fun j => by simp only [Rewriter.pass, hvisit]⟩
  | some root => exact ⟨.ok root, fun j => by simp only [Rewriter.pass, hvisit]⟩

end

end Rewriter

lemma headingIdRewriter_isQuiet : headingIdRewriter.IsQuiet where
  before _ _ := fun _ => ⟨(), [], fun _ => rfl⟩
  inline _ _ := Quiet.pure _
  after _ _ := Quiet.pure _
  block _ b := by
    unfold headingIdRewriter
    dsimp only
    split
    next h depth content =>
      intro used
      let p := (leadingAnchor? content).getD (slugify (Inline.plainText content), content)
      let unique := uniqueId used p.1
      exact ⟨some (.leaf h (.heading depth (some unique.1) p.2)), unique.2, fun _ => rfl⟩
    next => exact Quiet.pure _

end Docmark
