import Mathlib
import Docmark.Path

/-!
# The order of paths

Paths are ordered by their components, one after the other.  A component has a key in a linear
order, its rank and its name, so that the order of paths is the lexicographic one on the keys: total
and transitive, and two paths that stand both before each other have the same components.

## Main results

* `Path.le_iff` — the order of paths is that of the keys of their components.
* `Path.pairwise_lt_mergeSort`, `Path.mergeSort_le_eq` — sorting by it.
-/

namespace Docmark

namespace Path

/-- What the order of components goes by: the rank, and behind it the name. -/
def Component.key (c : Component) : ℕ ×ₗ Text :=
  toLex (c.rank, match c with
    | .name s => s
    | _ => [])

lemma Component.key_injective : Function.Injective Component.key := by
  rintro (_ | _ | _ | s) (_ | _ | _ | s') h <;>
    simp_all [Component.key, Component.rank]

lemma Component.lt_iff {a b : Component} : a.lt b = true ↔ a.key < b.key := by
  cases a <;> cases b <;>
    simp [Component.lt, Component.key, Component.rank, Prod.Lex.toLex_lt_toLex]

/-- **The order of paths is lexicographic** in the keys of their components. -/
lemma le_iff {p q : Path} :
    p.le q = true ↔ p.components.map Component.key ≤ q.components.map Component.key := by
  have hgo (as bs : List Component) :
      le.go as bs = true ↔ ¬ bs.map Component.key < as.map Component.key := by
    induction as generalizing bs with
    | nil => simp [le.go]
    | cons a as ih =>
      cases bs with
      | nil => simp [le.go]
      | cons b bs =>
        have hnot : b.lt a = false ↔ ¬ b.key < a.key := by
          rw [← Bool.not_eq_true, Component.lt_iff]
        simp only [le.go, Bool.or_eq_true, Bool.and_eq_true, Bool.not_eq_true', List.map_cons,
          List.cons_lt_cons_iff, Component.lt_iff, hnot, ih, not_or, not_and]
        constructor
        · rintro (hlt | ⟨hle, hrest⟩)
          · exact ⟨hlt.not_gt, fun heq => absurd heq hlt.ne'⟩
          · exact ⟨hle, fun _ => hrest⟩
        · rintro ⟨hle, hrest⟩
          exact (not_lt.1 hle).lt_or_eq.imp_right fun heq => ⟨hle, hrest heq.symm⟩
  rw [← not_lt]
  exact hgo _ _

lemma le_or_le (p q : Path) : (p.le q || q.le p) = true := by
  rw [Bool.or_eq_true, le_iff, le_iff]
  exact le_total _ _

lemma le_of_le_of_le (p q r : Path) (hpq : p.le q = true) (hqr : q.le r = true) :
    p.le r = true := by
  rw [le_iff] at *
  exact hpq.trans hqr

/-- Two paths none of which stands behind the other have the same components. -/
lemma components_eq_of_le {p q : Path} (hpq : p.le q = true) (hqp : q.le p = true) :
    p.components = q.components := by
  rw [le_iff] at hpq hqp
  exact Component.key_injective.list_map (le_antisymm hpq hqp)

lemma pairwise_mergeSort_le (ps : List Path) :
    (ps.mergeSort le).Pairwise fun p q => p.le q = true :=
  List.pairwise_mergeSort le_of_le_of_le le_or_le ps

/-- **Sorting strictly.**  Where no two paths of a list have the same components, each path of the
sorted list stands before all later ones, and none of these before it. -/
lemma pairwise_lt_mergeSort {ps : List Path} (h : (ps.map components).Nodup) :
    (ps.mergeSort le).Pairwise fun p q => p.le q = true ∧ q.le p = false := by
  have hnodup : (ps.mergeSort le).Pairwise fun p q => p.components ≠ q.components := by
    rw [← List.pairwise_map]
    exact ((List.mergeSort_perm ps le).map components).nodup_iff.2 h
  refine (pairwise_mergeSort_le ps).imp₂ (fun p q hpq hne => ⟨hpq, ?_⟩) hnodup
  rw [← Bool.not_eq_true]
  exact fun hqp => hne (components_eq_of_le hpq hqp)

/-- **The order does not count.**  Lists of the same paths are sorted alike if the components of a
path tell it from the others. -/
lemma mergeSort_le_eq {ps qs : List Path} (h : ps.Perm qs)
    (hinj : ∀ p ∈ ps, ∀ q ∈ ps, p.components = q.components → p = q) :
    ps.mergeSort le = qs.mergeSort le := by
  have hperm : (ps.mergeSort le).Perm (qs.mergeSort le) :=
    (List.mergeSort_perm ps le).trans (h.trans (List.mergeSort_perm qs le).symm)
  refine List.Perm.eq_of_pairwise (fun p q hp hq hpq hqp => ?_) (pairwise_mergeSort_le ps)
    (pairwise_mergeSort_le qs) hperm
  refine hinj p (List.mem_mergeSort.1 hp) q ?_ (components_eq_of_le hpq hqp)
  exact h.mem_iff.2 (List.mem_mergeSort.1 hq)

end Path

end Docmark
