import Mathlib
import Docmark.Proofs.Rewrite.Rebase

/-!
# Targets by where they come from

The targets of the links and images in a tree, each with the outermost included file that its token
stands in, if it stands in one; and maps over targets that look at this file.

## Main results

* `Block.mapTargetsAt_eq_iff` — maps that make the same tree of a tree agree on its targets.
* `Block.mapTargetsAt_some` — inside of an included file, such a map is a map over targets.
-/

namespace Docmark

/-! ## Definitions -/

/-- The target of an image. -/
def Inline.Leaf.target? : Inline.Leaf → Option Text
  | .image src _ _ => some src
  | _ => none

/-- The target of a link. -/
def Inline.Frame.target? : Inline.Frame → Option Text
  | .link href _ => some href
  | _ => none

/-- The outermost included file inside of a frame, given the one around it. -/
def Inline.Frame.enter (file : Option Path) : Inline.Frame → Option Path
  | .included path => some (file.getD path)
  | _ => file

/-- The outermost included file inside of a frame, given the one around it. -/
def Block.Frame.enter (file : Option Path) : Block.Frame → Option Path
  | .included path => some (file.getD path)
  | _ => file

mutual

/-- The targets in a token, each with the outermost included file around it. -/
def Inline.targetsAt (file : Option Path) : Inline → List (Option Path × Text)
  | .leaf _ c => c.target?.toList.map fun target => (file, target)
  | .node _ fr ts =>
    (fr.target?.toList.map fun target => (file, target)) ++ Inline.targetsAtAll (fr.enter file) ts

/-- The targets in some tokens. -/
def Inline.targetsAtAll (file : Option Path) : List Inline → List (Option Path × Text)
  | [] => []
  | t :: ts => t.targetsAt file ++ Inline.targetsAtAll file ts

end

mutual

/-- The targets in a block, each with the outermost included file around it. -/
def Block.targetsAt (file : Option Path) : Block → List (Option Path × Text)
  | .leaf _ c => c.inlines.flatMap (Inline.targetsAtAll file)
  | .node _ fr bs => Block.targetsAtAll (fr.enter file) bs

/-- The targets in some blocks. -/
def Block.targetsAtAll (file : Option Path) : List Block → List (Option Path × Text)
  | [] => []
  | b :: bs => b.targetsAt file ++ Block.targetsAtAll file bs

end

mutual

/-- The token with each target in it replaced, in view of the outermost included file around it. -/
def Inline.mapTargetsAt (f : Option Path → Text → Text) (file : Option Path) : Inline → Inline
  | .leaf h c => .leaf h (c.mapTargets (f file))
  | .node h fr ts =>
    .node h (fr.mapTargets (f file)) (Inline.mapTargetsAtAll f (fr.enter file) ts)

/-- The tokens with each target in them replaced. -/
def Inline.mapTargetsAtAll (f : Option Path → Text → Text) (file : Option Path) :
    List Inline → List Inline
  | [] => []
  | t :: ts => t.mapTargetsAt f file :: Inline.mapTargetsAtAll f file ts

end

mutual

/-- The block with each target in it replaced, in view of the outermost included file around it. -/
def Block.mapTargetsAt (f : Option Path → Text → Text) (file : Option Path) : Block → Block
  | .leaf h c => .leaf h (c.mapInlines (Inline.mapTargetsAtAll f file))
  | .node h fr bs => .node h fr (Block.mapTargetsAtAll f (fr.enter file) bs)

/-- The blocks with each target in them replaced. -/
def Block.mapTargetsAtAll (f : Option Path → Text → Text) (file : Option Path) :
    List Block → List Block
  | [] => []
  | b :: bs => b.mapTargetsAt f file :: Block.mapTargetsAtAll f file bs

end

section Lists

variable (f : Option Path → Text → Text) (file : Option Path)

lemma Inline.targetsAtAll_eq_flatMap (ts : List Inline) :
    Inline.targetsAtAll file ts = ts.flatMap (Inline.targetsAt file) := by
  induction ts with
  | nil => rw [Inline.targetsAtAll, List.flatMap_nil]
  | cons t ts ih => rw [Inline.targetsAtAll, ih, List.flatMap_cons]

lemma Block.targetsAtAll_eq_flatMap (bs : List Block) :
    Block.targetsAtAll file bs = bs.flatMap (Block.targetsAt file) := by
  induction bs with
  | nil => rw [Block.targetsAtAll, List.flatMap_nil]
  | cons b bs ih => rw [Block.targetsAtAll, ih, List.flatMap_cons]

lemma Inline.mapTargetsAtAll_eq_map (ts : List Inline) :
    Inline.mapTargetsAtAll f file ts = ts.map (Inline.mapTargetsAt f file) := by
  induction ts with
  | nil => rw [Inline.mapTargetsAtAll, List.map_nil]
  | cons t ts ih => rw [Inline.mapTargetsAtAll, ih, List.map_cons]

lemma Block.mapTargetsAtAll_eq_map (bs : List Block) :
    Block.mapTargetsAtAll f file bs = bs.map (Block.mapTargetsAt f file) := by
  induction bs with
  | nil => rw [Block.mapTargetsAtAll, List.map_nil]
  | cons b bs ih => rw [Block.mapTargetsAtAll, ih, List.map_cons]

end Lists

/-! ## Maps that agree -/

section Agree

variable {f g : Option Path → Text → Text}

lemma Inline.Leaf.mapTargets_eq_iff {f g : Text → Text} {c : Inline.Leaf} :
    c.mapTargets f = c.mapTargets g ↔ ∀ target ∈ c.target?, f target = g target := by
  cases c <;> simp [Inline.Leaf.mapTargets, Inline.Leaf.target?]

lemma Inline.Frame.mapTargets_eq_iff {f g : Text → Text} {fr : Inline.Frame} :
    fr.mapTargets f = fr.mapTargets g ↔ ∀ target ∈ fr.target?, f target = g target := by
  cases fr <;> simp [Inline.Frame.mapTargets, Inline.Frame.target?]

lemma Inline.mapTargetsAt_eq_iff {t : Inline} {file : Option Path} :
    t.mapTargetsAt f file = t.mapTargetsAt g file ↔
      ∀ x ∈ t.targetsAt file, f x.1 x.2 = g x.1 x.2 := by
  induction t using Inline.induction generalizing file with
  | leaf h c =>
    simp only [Inline.mapTargetsAt, Inline.targetsAt, Inline.leaf.injEq, true_and,
      Inline.Leaf.mapTargets_eq_iff]
    cases c.target? <;> simp
  | node h fr ts ih =>
    simp only [Inline.mapTargetsAt, Inline.targetsAt, Inline.node.injEq, true_and,
      Inline.Frame.mapTargets_eq_iff, Inline.mapTargetsAtAll_eq_map, Inline.targetsAtAll_eq_flatMap,
      List.map_inj_left, List.mem_append, or_imp, forall_and]
    refine and_congr ?_ ?_
    · cases fr.target? <;> simp
    · simp only [List.mem_flatMap, forall_exists_index, and_imp]
      constructor
      · exact fun h x t ht hx => (ih t ht).1 (h t ht) x hx
      · exact fun h t ht => (ih t ht).2 fun x hx => h x t ht hx

lemma Inline.mapTargetsAtAll_eq_iff {ts : List Inline} {file : Option Path} :
    Inline.mapTargetsAtAll f file ts = Inline.mapTargetsAtAll g file ts ↔
      ∀ x ∈ Inline.targetsAtAll file ts, f x.1 x.2 = g x.1 x.2 := by
  simp only [Inline.mapTargetsAtAll_eq_map, Inline.targetsAtAll_eq_flatMap, List.map_inj_left,
    Inline.mapTargetsAt_eq_iff, List.mem_flatMap, forall_exists_index, and_imp]
  exact ⟨fun h x t ht hx => h t ht x hx, fun h t ht x hx => h x t ht hx⟩

/-- Functions that make the same leaf of a leaf agree on its inline sequences. -/
lemma Block.Leaf.mapInlines_eq_iff {f g : List Inline → List Inline} {c : Block.Leaf} :
    c.mapInlines f = c.mapInlines g ↔ ∀ ts ∈ c.inlines, f ts = g ts := by
  cases c with
  | table align header rows =>
    simp only [Block.Leaf.mapInlines, Block.Leaf.inlines, Block.Leaf.table.injEq, true_and,
      List.map_inj_left, List.mem_append, List.mem_flatten, or_imp, forall_and,
      forall_exists_index, and_imp]
    exact and_congr_right fun _ =>
      ⟨fun h ts row hrow hts => h row hrow ts hts, fun h row hrow ts hts => h ts row hrow hts⟩
  | _ => simp [Block.Leaf.mapInlines, Block.Leaf.inlines]

/-- **Maps that agree.**  Two maps make the same tree of a tree exactly if they agree on its
targets. -/
theorem Block.mapTargetsAt_eq_iff {b : Block} {file : Option Path} :
    b.mapTargetsAt f file = b.mapTargetsAt g file ↔
      ∀ x ∈ b.targetsAt file, f x.1 x.2 = g x.1 x.2 := by
  induction b using Block.induction generalizing file with
  | leaf h c =>
    simp only [Block.mapTargetsAt, Block.targetsAt, Block.leaf.injEq, true_and,
      Block.Leaf.mapInlines_eq_iff, Inline.mapTargetsAtAll_eq_iff, List.mem_flatMap,
      forall_exists_index, and_imp]
    exact ⟨fun h x ts hts hx => h ts hts x hx, fun h ts hts x hx => h x ts hts hx⟩
  | node h fr bs ih =>
    simp only [Block.mapTargetsAt, Block.targetsAt, Block.node.injEq, true_and,
      Block.mapTargetsAtAll_eq_map, Block.targetsAtAll_eq_flatMap, List.map_inj_left,
      List.mem_flatMap, forall_exists_index, and_imp]
    constructor
    · exact fun h x b hb hx => (ih b hb).1 (h b hb) x hx
    · exact fun h b hb => (ih b hb).2 fun x hx => h x b hb hx

end Agree

/-! ## Inside of a file -/

section Inside

variable (f : Option Path → Text → Text) (path : Path)

lemma Inline.mapTargetsAt_some (t : Inline) :
    t.mapTargetsAt f (some path) = t.mapTargets (f (some path)) := by
  induction t using Inline.induction with
  | leaf h c => rw [Inline.mapTargetsAt, Inline.mapTargets]
  | node h fr ts ih =>
    have henter : fr.enter (some path) = some path := by cases fr <;> rfl
    rw [Inline.mapTargetsAt, Inline.mapTargets, henter, Inline.mapTargetsAtAll_eq_map,
      Inline.mapTargetsAll_eq_map, List.map_congr_left ih]

lemma Inline.mapTargetsAtAll_some :
    Inline.mapTargetsAtAll f (some path) = Inline.mapTargetsAll (f (some path)) := by
  funext ts
  rw [Inline.mapTargetsAtAll_eq_map, Inline.mapTargetsAll_eq_map]
  exact List.map_congr_left fun t _ => t.mapTargetsAt_some f path

/-- **Inside of an included file**, its targets are mapped alike, whatever it includes. -/
theorem Block.mapTargetsAt_some (b : Block) :
    b.mapTargetsAt f (some path) = b.mapTargets (f (some path)) := by
  induction b using Block.induction with
  | leaf h c => rw [Block.mapTargetsAt, Block.mapTargets, Inline.mapTargetsAtAll_some]
  | node h fr bs ih =>
    have henter : fr.enter (some path) = some path := by cases fr <;> rfl
    rw [Block.mapTargetsAt, Block.mapTargets, henter, Block.mapTargetsAtAll_eq_map,
      Block.mapTargetsAll_eq_map, List.map_congr_left ih]

lemma Block.mapTargetsAtAll_some :
    Block.mapTargetsAtAll f (some path) = Block.mapTargetsAll (f (some path)) := by
  funext bs
  rw [Block.mapTargetsAtAll_eq_map, Block.mapTargetsAll_eq_map]
  exact List.map_congr_left fun b _ => b.mapTargetsAt_some f path

end Inside

end Docmark
