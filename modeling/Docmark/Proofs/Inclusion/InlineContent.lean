import Mathlib
import Docmark.Proofs.Inclusion.Moved

/-!
# Inline content of included documents

In the place of an inline directive stand the inline sequences of the included document, with a
blank between one and the next.  Headings and paragraphs are found at every depth and in document
order, but a table contributes none of its cells.

## Main results

* `inline_inclusion_passes_tables` — which sequences are taken, and that these are all there are
  exactly if every cell in the document is empty.
* `inline_inclusion_of_table` — a table whose cell is lost.
-/

namespace Docmark

/-! ## Sequences in a row -/

/-- A blank at the place of a token. -/
def Inline.blankAt (t : Inline) : Inline := .leaf ⟨"include_inline", t.span⟩ (.text [' '])

/-- A sequence behind a blank at the place of its first token. -/
def Inline.behindBlank (ts : List Inline) : List Inline := ts.head?.toList.map blankAt ++ ts

/-- The tokens of some sequences, with a blank between one sequence and the next. -/
def Inline.inOneRow : List (List Inline) → List Inline
  | [] => []
  | first :: rest => first ++ rest.flatMap behindBlank

lemma spaced_eq_flatMap (rows : List (List Inline)) :
    spaced rows = rows.flatMap Inline.behindBlank := by
  fun_induction spaced rows with
  | case1 => rfl
  | case2 rest ih => rw [ih, List.flatMap_cons]; rfl
  | case3 t ts rest ih => rw [ih, List.flatMap_cons]; rfl

lemma includedInlines_eq (root : Block) :
    includedInlines root = Inline.inOneRow root.textInlines := by
  cases hrows : root.textInlines with
  | nil => simp only [includedInlines, hrows, Inline.inOneRow]
  | cons first rest => simp only [includedInlines, hrows, Inline.inOneRow, spaced_eq_flatMap]

/-- The tokens of some sequences, counting one more for each sequence. -/
def Inline.rowWeight (rows : List (List Inline)) : Nat := (rows.map (·.length + 1)).sum

/-- A row has a token for every token of its sequences and for every sequence but the first. -/
lemma Inline.length_inOneRow {rows : List (List Inline)} (h : ∀ ts ∈ rows, ts ≠ []) :
    (inOneRow rows).length = rowWeight rows - 1 := by
  cases rows with
  | nil => rfl
  | cons first rest =>
    have hrest : (rest.flatMap behindBlank).length = rowWeight rest := by
      rw [List.length_flatMap, rowWeight]
      refine congrArg List.sum (List.map_congr_left fun ts hts => ?_)
      obtain ⟨t, ts, rfl⟩ := List.exists_cons_of_ne_nil (h ts (List.mem_cons_of_mem _ hts))
      simp [behindBlank, Nat.add_comm]
    rw [inOneRow, List.length_append, hrest]
    simp only [rowWeight, List.map_cons, List.sum_cons]
    omega

/-! ## The sequences of a document -/

/-- The inline sequences of some blocks that hold anything, in order. -/
def Block.filledRows (bs : List Block) : List (List Inline) :=
  (bs.flatMap Block.inlines).filter (!·.isEmpty)

namespace Block

lemma ne_nil_of_mem_filledRows {bs : List Block} : ∀ ts ∈ filledRows bs, ts ≠ [] := by
  intro ts hts
  simpa using (List.mem_filter.1 hts).2

lemma filledRows_append (bs cs : List Block) :
    filledRows (bs ++ cs) = filledRows bs ++ filledRows cs := by
  rw [filledRows, List.flatMap_append, List.filter_append, filledRows, filledRows]

lemma filledRows_flatMap {α : Type} (l : List α) (f : α → List Block) :
    filledRows (l.flatMap f) = l.flatMap fun a => filledRows (f a) := by
  simp only [filledRows, List.flatMap_assoc, List.filter_flatMap]

lemma filledRows_eq_nil {bs : List Block} :
    filledRows bs = [] ↔ ∀ b ∈ bs, ∀ ts ∈ b.inlines, ts = [] := by
  rw [filledRows, List.filter_eq_nil_iff]
  constructor
  · intro h b hb ts hts
    simpa using h ts (List.mem_flatMap.2 ⟨b, hb, hts⟩)
  · intro h ts hts
    obtain ⟨b, hb, hts⟩ := List.mem_flatMap.1 hts
    simp [h b hb ts hts]

/-- The blocks of a tree that are no tables, in document order. -/
def besideTables (root : Block) : List Block := root.nodes.filter (·.kind ≠ .table)

/-- The tables of a tree, in document order. -/
def tables (root : Block) : List Block := root.nodes.filter (·.kind = .table)

lemma Frame.kind_ne_table (f : Frame) : f.kind ≠ .table := by
  cases f <;> exact BlockTag.noConfusion

lemma textInlines_eq (root : Block) : root.textInlines = filledRows root.besideTables := by
  induction root using Block.induction with
  | leaf h c =>
    have hrow (content : List Inline) :
        (if content.isEmpty then [] else [content]) = [content].filter (!·.isEmpty) := by
      cases content <;> rfl
    cases c with
    | heading | paragraph | text => exact hrow _
    | _ => rfl
  | node h f bs ih =>
    have hbelow : (nodesAll bs).filter (·.kind ≠ .table) = bs.flatMap besideTables := by
      rw [nodesAll_eq_flatMap, List.filter_flatMap]
      rfl
    have hkind : (node h f bs).kind ≠ .table := f.kind_ne_table
    have hself : filledRows (node h f bs :: bs.flatMap besideTables) =
        filledRows (bs.flatMap besideTables) := rfl
    rw [textInlines, textInlinesAll_eq_flatMap, besideTables, nodes_node,
      List.filter_cons_of_pos (by simpa using hkind), hbelow, hself, filledRows_flatMap]
    exact List.flatMap_congr ih

/-- The sequences of a tree are those of its tables and those beside them. -/
lemma filledRows_perm (root : Block) :
    (filledRows root.tables ++ filledRows root.besideTables).Perm (filledRows root.nodes) := by
  have hperm : (root.tables ++ root.besideTables).Perm root.nodes := by
    simpa [tables, besideTables] using
      List.filter_append_perm (fun b : Block => decide (b.kind = .table)) root.nodes
  rw [← filledRows_append]
  exact (hperm.flatMap_right inlines).filter _

lemma rowWeight_filledRows_nodes (root : Block) :
    Inline.rowWeight (filledRows root.nodes) =
      Inline.rowWeight (filledRows root.tables) +
        Inline.rowWeight (filledRows root.besideTables) := by
  rw [Inline.rowWeight, ← ((filledRows_perm root).map _).sum_nat, List.map_append,
    List.sum_append, Inline.rowWeight, Inline.rowWeight]

/-- Without a filled cell, the sequences beside tables are all there are. -/
lemma filledRows_besideTables {root : Block} (h : filledRows root.tables = []) :
    filledRows root.besideTables = filledRows root.nodes := by
  have hperm := filledRows_perm root
  rw [h, List.nil_append] at hperm
  have hsublist : (filledRows root.besideTables).Sublist (filledRows root.nodes) :=
    (List.filter_sublist.flatMap inlines).filter _
  exact hsublist.eq_of_length hperm.length_eq

end Block

/-! ## Inline inclusion -/

/-- **Inline inclusion passes tables over.**  In the place of an inline directive stand the inline
sequences of all blocks of the included document but its tables, in document order, with a blank
between one and the next.  These are all inline sequences of the document exactly if every cell of
every table in it is empty. -/
theorem inline_inclusion_passes_tables (root : Block) :
    includedInlines root = Inline.inOneRow (Block.filledRows root.besideTables) ∧
      (includedInlines root = Inline.inOneRow (Block.filledRows root.nodes) ↔
        ∀ b ∈ root.nodes, b.kind = .table → ∀ ts ∈ b.inlines, ts = []) := by
  have hrows : includedInlines root = Inline.inOneRow (Block.filledRows root.besideTables) := by
    rw [includedInlines_eq, Block.textInlines_eq]
  have htables : (∀ b ∈ root.nodes, b.kind = .table → ∀ ts ∈ b.inlines, ts = []) ↔
      Block.filledRows root.tables = [] := by
    simp [Block.filledRows_eq_nil, Block.tables]
  refine ⟨hrows, ?_⟩
  rw [hrows, htables]
  constructor
  · intro h
    have hlength := congrArg List.length h
    rw [Inline.length_inOneRow Block.ne_nil_of_mem_filledRows,
      Inline.length_inOneRow Block.ne_nil_of_mem_filledRows, Block.rowWeight_filledRows_nodes]
      at hlength
    by_contra hne
    obtain ⟨ts, rest, hcons⟩ := List.exists_cons_of_ne_nil hne
    have hts : ts ≠ [] := Block.ne_nil_of_mem_filledRows ts (hcons ▸ List.mem_cons_self)
    have hpos := List.length_pos_of_ne_nil hts
    have htwo : 2 ≤ Inline.rowWeight (Block.filledRows root.tables) := by
      rw [hcons, Inline.rowWeight, List.map_cons, List.sum_cons]
      omega
    omega
  · intro h
    rw [Block.filledRows_besideTables h]

/-- **A lost table.**  A document that is one table contributes nothing in the place of an inline
directive, though its only cell has a text. -/
theorem inline_inclusion_of_table :
    ∃ root, (readWith dfmRules [] Scope.document "| a |\n|---|\n".toList).1 = .ok root ∧
      includedInlines root ≠ Inline.inOneRow (Block.filledRows root.nodes) := by
  have h : ∃ root, (readWith dfmRules [] Scope.document "| a |\n|---|\n".toList).1 = .ok root ∧
      (includedInlines root).length = 0 ∧
        (Inline.inOneRow (Block.filledRows root.nodes)).length = 1 := by
    decide +kernel
  obtain ⟨root, hroot, hincluded, hall⟩ := h
  refine ⟨root, hroot, fun heq => ?_⟩
  rw [heq, hall] at hincluded
  cases hincluded

end Docmark
