import Mathlib
import Docmark.Proofs.Token.Walk
import Docmark.Rewrite.Basic

/-!
# What validators are shown

A group of validators walks over a tree as a rewriter does, and changes nothing.  The pass of a
group yields the tree that it was given, and a journal to which every validator has added for every
token of the walk.

## Main results

* `Validator.group_pass` — the pass of a group of validators, as a fold over the tokens of the tree.
* `Validator.group_pass_calls` — the calls that a group makes: each validator is shown every token
  once, in an order that depends on the tree alone.
-/

namespace Docmark

/-! ## The walk of a group -/

namespace Validator

/-- What a validator adds to the journal for a token. -/
def look (v : Validator) (file : Option Path) : Token → Journal → Journal
  | .block b => v.block file b
  | .inline t => v.inline file t

/-- What some validators add to the journal for a token, one after the other. -/
def lookInTurn (vs : List Validator) (file : Option Path) (x : Token) (j : Journal) : Journal :=
  vs.foldl (fun j v => v.look file x j) j

/-- What some validators add to the journal for a sequence of tokens. -/
def lookAt (vs : List Validator) (file : Option Path) (xs : List Token) (j : Journal) : Journal :=
  xs.foldl (fun j x => lookInTurn vs file x j) j

/-- A step of a walk that yields `v` and shows some tokens to the validators. -/
def Shows {α : Type} (vs : List Validator) (file : Option Path) (a : RewriteM Unit α) (v : α)
    (xs : List Token) : Prop :=
  ∀ j, a ((), j) = (v, (), lookAt vs file xs j)

variable {vs : List Validator} {file : Option Path} {α β : Type}

lemma Shows.pure (v : α) : Shows vs file (Pure.pure v) v [] := fun _ => rfl

lemma Shows.bind {a : RewriteM Unit α} {f : α → RewriteM Unit β} {v : α} {w : β}
    {xs ys : List Token} (ha : Shows vs file a v xs) (hf : Shows vs file (f v) w ys) :
    Shows vs file (a >>= f) w (xs ++ ys) := by
  intro j
  have hstep : (a >>= f) ((), j) = f (a ((), j)).1 (a ((), j)).2 := rfl
  rw [hstep, ha j, hf, lookAt, lookAt, lookAt, List.foldl_append]

lemma Shows.map {a : RewriteM Unit α} {f : α → β} {v : α} {xs : List Token}
    (ha : Shows vs file a v xs) : Shows vs file (f <$> a) (f v) xs := by
  intro j
  have hstep : (f <$> a) ((), j) = (f (a ((), j)).1, (a ((), j)).2) := rfl
  rw [hstep, ha j]

lemma Shows.bind_pure {a : RewriteM Unit α} {f : α → β} {v : α} {xs : List Token}
    (ha : Shows vs file a v xs) : Shows vs file (a >>= fun x => Pure.pure (f x)) (f v) xs := by
  have h := ha.bind (f := fun x => Pure.pure (f x)) (Shows.pure (f v))
  rwa [List.append_nil] at h

lemma Shows.mapM {f : α → RewriteM Unit β} {v : α → β} {xs : α → List Token} (as : List α)
    (h : ∀ a ∈ as, Shows vs file (f a) (v a) (xs a)) :
    Shows vs file (as.mapM f) (as.map v) (as.flatMap xs) := by
  induction as with
  | nil => exact Shows.pure _
  | cons a as ih =>
    rw [List.mapM_cons, List.map_cons, List.flatMap_cons]
    have hrest := ih fun a' ha' => h a' (List.mem_cons_of_mem _ ha')
    exact (h a List.mem_cons_self).bind hrest.bind_pure

lemma shows_inline (t : Inline) :
    Shows vs file ((group vs).inline file t) (some t) [.inline t] := fun _ => rfl

lemma shows_block (b : Block) :
    Shows vs file ((group vs).block file b) (some b) [.block b] := fun _ => rfl

lemma shows_visitInlines_of {ts : List Inline}
    (h : ∀ t ∈ ts, Shows vs file ((group vs).visitInline file t) (some t)
      (t.postorder.map .inline)) :
    Shows vs file ((group vs).visitInlines file ts) ts
      ((Inline.postorderAll ts).map .inline) := by
  induction ts with
  | nil =>
    rw [Rewriter.visitInlines]
    exact Shows.pure _
  | cons t ts ih =>
    rw [Rewriter.visitInlines, Inline.postorderAll, List.map_append]
    have hrest := ih fun u hu => h u (List.mem_cons_of_mem _ hu)
    exact (h t List.mem_cons_self).bind hrest.bind_pure

lemma shows_visitInline (t : Inline) :
    Shows vs file ((group vs).visitInline file t) (some t) (t.postorder.map .inline) := by
  induction t using Inline.induction with
  | leaf h c =>
    rw [Rewriter.visitInline, Inline.postorder_leaf]
    exact shows_inline _
  | node h f ts ih =>
    rw [Rewriter.visitInline, Inline.postorder_node, List.map_append]
    exact (shows_visitInlines_of ih).bind (shows_inline _)

lemma shows_visitInlines (ts : List Inline) :
    Shows vs file ((group vs).visitInlines file ts) ts
      ((Inline.postorderAll ts).map .inline) :=
  shows_visitInlines_of fun t _ => shows_visitInline t

lemma shows_visitRow (row : List (List Inline)) :
    Shows vs file (row.mapM ((group vs).visitInlines file)) row
      ((row.flatMap Inline.postorderAll).map .inline) := by
  have hrow : Shows vs file (row.mapM ((group vs).visitInlines file)) (row.map id)
      (row.flatMap fun ts => (Inline.postorderAll ts).map .inline) :=
    Shows.mapM row fun ts _ => shows_visitInlines ts
  rwa [List.map_id, ← List.map_flatMap] at hrow

lemma shows_visitLeaf (c : Block.Leaf) :
    Shows vs file ((group vs).visitLeaf file c) c c.inside := by
  have hsingle (ts : List Inline) : Shows vs file ((group vs).visitInlines file ts) ts
      (([ts].flatMap Inline.postorderAll).map .inline) := by
    rw [List.flatMap_singleton]
    exact shows_visitInlines ts
  cases c with
  | heading depth id content => exact (hsingle content).map
  | paragraph content => exact (hsingle content).map
  | text content => exact (hsingle content).map
  | table align header rows =>
    have hcells : Shows vs file (rows.mapM (·.mapM ((group vs).visitInlines file))) (rows.map id)
        (rows.flatMap fun row => (row.flatMap Inline.postorderAll).map .inline) :=
      Shows.mapM rows fun row _ => shows_visitRow row
    rw [List.map_id] at hcells
    have hinside : (Block.Leaf.table align header rows).inside =
        (header.flatMap Inline.postorderAll).map .inline ++
          rows.flatMap fun row => (row.flatMap Inline.postorderAll).map .inline := by
      rw [Block.Leaf.inside, Block.Leaf.inlines, List.flatMap_append, List.map_append,
        ← List.flatMap_id (L := rows), List.flatMap_assoc]
      simp only [List.map_flatMap, id_eq]
    rw [Rewriter.visitLeaf, hinside]
    exact (shows_visitRow header).bind hcells.bind_pure
  | _ => exact Shows.pure _

lemma shows_visitBlocks_of {bs : List Block}
    (h : ∀ b ∈ bs, Shows vs file ((group vs).visitBlock file b) (some b)
      (b.inside ++ [.block b])) :
    Shows vs file ((group vs).visitBlocks file bs) bs (Block.insideAll bs) := by
  induction bs with
  | nil =>
    rw [Rewriter.visitBlocks]
    exact Shows.pure _
  | cons b bs ih =>
    rw [Rewriter.visitBlocks, Block.insideAll, List.append_cons]
    have hrest := ih fun d hd => h d (List.mem_cons_of_mem _ hd)
    exact (h b List.mem_cons_self).bind hrest.bind_pure

lemma shows_visitBlock (b : Block) :
    Shows vs file ((group vs).visitBlock file b) (some b) (b.inside ++ [.block b]) := by
  induction b using Block.induction with
  | leaf h c =>
    rw [Rewriter.visitBlock, Block.inside_leaf]
    exact (shows_visitLeaf c).bind (shows_block _)
  | node h f bs ih =>
    rw [Rewriter.visitBlock, Block.inside_node]
    exact (shows_visitBlocks_of ih).bind (shows_block _)

lemma shows_visitContents (b : Block) :
    Shows vs file ((group vs).visitContents file b) b b.inside := by
  cases b with
  | leaf h c =>
    rw [Block.inside_leaf]
    exact (shows_visitLeaf c).map
  | node h f bs =>
    rw [Block.inside_node]
    exact (shows_visitBlocks_of fun b _ => shows_visitBlock b).map

/-- **Validators look and change nothing.**  The pass of a group yields the tree that it was given,
and shows every token of the walk to each of the validators in turn. -/
theorem group_pass (vs : List Validator) (file : Option Path) (root : Block) (j : Journal) :
    (group vs).pass file root j = (.ok root, lookAt vs file root.walk j) := by
  have hafter : Shows vs file
      (do let b ← (group vs).visitContents file root
          (group vs).after file b
          Pure.pure (some b)) (some root) root.inside := by
    exact (shows_visitContents root).bind_pure
  have hvisit : Shows vs file ((group vs).visit file root) (some root) root.walk :=
    (Shows.pure ()).bind ((shows_block root).bind hafter)
  simp only [Rewriter.pass]
  rw [show (group vs).initial = () from rfl, hvisit j]

/-! ## The calls of a group -/

/-- The calls that a group of `n` validators makes for some tokens: for each token, one to every
validator. -/
def calls (n : ℕ) (xs : List Token) : List (Fin n × Token) :=
  xs.flatMap fun x => (List.finRange n).map (·, x)

lemma lookInTurn_eq (vs : List Validator) (file : Option Path) (x : Token) (j : Journal) :
    lookInTurn vs file x j =
      (List.finRange vs.length).foldl (fun j i => vs[i].look file x j) j := by
  conv_lhs => rw [lookInTurn, ← List.map_get_finRange vs, List.foldl_map]
  rfl

lemma lookAt_eq (vs : List Validator) (file : Option Path) (xs : List Token) (j : Journal) :
    lookAt vs file xs j = (calls vs.length xs).foldl (fun j c => vs[c.1].look file c.2 j) j := by
  rw [lookAt, calls, List.foldl_flatMap]
  simp only [List.foldl_map, lookInTurn_eq]

/-- Among the calls for one token, one goes to the validator at a place. -/
lemma calls_singleton {n : ℕ} (i : Fin n) (x : Token) :
    (((List.finRange n).map (·, x)).filter (·.1 = i)).map (·.2) = [x] := by
  have hone : (List.finRange n).filter (· = i) = [i] := by
    rw [List.filter_eq, List.count_eq_one_of_mem (List.nodup_finRange n) (List.mem_finRange i)]
    rfl
  rw [List.filter_map, List.map_map]
  exact congrArg (List.map _) hone

/-- The validator at a place is called once for every token, in the order of the tokens. -/
lemma calls_filter {n : ℕ} (i : Fin n) (xs : List Token) :
    ((calls n xs).filter (·.1 = i)).map (·.2) = xs := by
  induction xs with
  | nil => rfl
  | cons x xs ih =>
    rw [calls, List.flatMap_cons, List.filter_append, List.map_append, calls_singleton]
    exact congrArg _ ih

/-- **A group of validators shows the tree, token by token, to each of its members.**  The pass
yields the tree that it was given, and what it records is the calls one after the other.  They go
along the walk: the root first, then everything inside it, where every token stands behind what is
inside it and behind the siblings to its left.  The walk has each block and each inline token of the
tree as often as it stands there, and it is what each validator sees, whichever others there are. -/
theorem group_pass_calls (vs : List Validator) (file : Option Path) (root : Block) (j : Journal) :
    (group vs).pass file root j =
        (.ok root, (calls vs.length root.walk).foldl (fun j c => vs[c.1].look file c.2 j) j) ∧
      (∀ i : Fin vs.length,
        ((calls vs.length root.walk).filter (·.1 = i)).map (·.2) = root.walk) ∧
      root.walk = .block root :: (Token.block root).inside ∧
      (∀ x : Token, x.inside = x.parts.flatMap fun y => y.inside ++ [y]) ∧
      root.walk.Perm (root.nodes.map .block ++ root.inlineNodes.map .inline) := by
  refine ⟨?_, fun i => calls_filter i root.walk, rfl, Token.inside_eq, root.walk_perm⟩
  rw [group_pass, lookAt_eq]

end Validator

end Docmark
