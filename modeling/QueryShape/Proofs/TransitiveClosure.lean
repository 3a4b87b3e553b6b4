import Mathlib.Logic.Relation
import QueryShape.Reachability

/-!
# The closure of a graph

The edges of the closure are exactly the paths of the graph. Where no node reaches itself, a node
points to strictly more nodes than any node that it points to.
-/

namespace QueryShape.Graph

variable {n : Nat}

theorem within_antisymm {g h : Graph n} (hgh : Within g h) (hhg : Within h g) : g = h :=
  ext_pointsTo fun i j => Bool.eq_iff_iff.mpr ⟨hgh i j, hhg i j⟩

private theorem foldl_fixed {α : Type} {f : Graph n → α → Graph n} (hf : ∀ g a, Within g (f g a))
    {g : Graph n} {l : List α} (h : l.foldl f g = g) : ∀ a ∈ l, f g a = g := by
  induction l with
  | nil => simp
  | cons a l ih =>
      rw [List.foldl_cons] at h
      have hback := within_foldl hf (f g a) l
      rw [h] at hback
      have ha : f g a = g := within_antisymm hback (hf g a)
      rw [ha] at h
      intro b hb
      rcases List.mem_cons.mp hb with rfl | hb
      · exact ha
      · exact ih h b hb

def joinRows (g : Graph n) (visits : List (Fin n × Fin n)) : Graph n :=
  visits.foldl (fun g pair => g.joinRow pair.1 pair.2) g

theorem sweep_eq_joinRows (g : Graph n) : g.sweep = g.joinRows (pairs n) := by
  simp only [joinRows, pairs, List.foldl_flatMap, List.foldl_map]
  rfl

theorem mem_pairs (i j : Fin n) : (i, j) ∈ pairs n := by simp [pairs]

theorem joinRow_of_joinRows_eq {g : Graph n} {visits : List (Fin n × Fin n)}
    (h : g.joinRows visits = g) {i j : Fin n} (hmem : (i, j) ∈ visits) : g.joinRow i j = g := by
  have hwithin (g : Graph n) (pair : Fin n × Fin n) : Within g (g.joinRow pair.1 pair.2) :=
    within_joinRow g pair.1 pair.2
  exact foldl_fixed hwithin h (i, j) hmem

theorem sweep_closure (g : Graph n) : g.closure.sweep = g.closure := by
  fun_induction closure g with
  | case1 g h => exact h
  | case2 g _ ih => exact ih

theorem within_closure (g : Graph n) : Within g g.closure := by
  fun_induction closure g with
  | case1 g _ => exact .refl g
  | case2 g _ ih => exact (within_sweep g).trans ih

def Reaches (g : Graph n) : Fin n → Fin n → Prop :=
  Relation.TransGen fun i j => g.pointsTo i j = true

def Traces (g h : Graph n) : Prop := ∀ i j, h.pointsTo i j = true → g.Reaches i j

theorem Traces.refl (g : Graph n) : Traces g g := fun _ _ h => .single h

theorem Traces.joinRow {g h : Graph n} (ht : Traces g h) (i j : Fin n) :
    Traces g (h.joinRow i j) := by
  intro k l hkl
  rw [pointsTo_joinRow] at hkl
  simp only [Bool.or_eq_true, Bool.and_eq_true, beq_iff_eq] at hkl
  rcases hkl with hkl | ⟨⟨rfl, hij⟩, hjl⟩
  · exact ht k l hkl
  · exact (ht k j hij).trans (ht j l hjl)

theorem Traces.joinRows {g h : Graph n} (ht : Traces g h) (visits : List (Fin n × Fin n)) :
    Traces g (h.joinRows visits) :=
  List.foldlRecOn visits _ ht fun _ ht pair _ => ht.joinRow pair.1 pair.2

theorem Traces.closure {g h : Graph n} (ht : Traces g h) : Traces g h.closure := by
  fun_induction Graph.closure h with
  | case1 h _ => exact ht
  | case2 h _ ih =>
      apply ih
      rw [sweep_eq_joinRows]
      exact ht.joinRows (pairs n)

/-- A graph between `g` and the paths of `g`, into which no row can be joined any more, has all the
paths as its edges. -/
theorem pointsTo_iff_reaches {g h : Graph n} (hwithin : Within g h) (htraces : Traces g h)
    (hjoined : ∀ i j, h.joinRow i j = h) (i k : Fin n) :
    h.pointsTo i k = true ↔ g.Reaches i k := by
  constructor
  · exact htraces i k
  · intro hpath
    induction hpath with
    | single hij => exact hwithin i _ hij
    | @tail j k _ hjk ih =>
        have hrow := pointsTo_joinRow h i j i k
        rw [hjoined] at hrow
        simpa [ih, hwithin j k hjk] using hrow

theorem pointsTo_closure_iff (g : Graph n) (i j : Fin n) :
    g.closure.pointsTo i j = true ↔ g.Reaches i j := by
  have hsettled : g.closure.joinRows (pairs n) = g.closure := by
    rw [← sweep_eq_joinRows]
    exact sweep_closure g
  have hjoined (i j : Fin n) : g.closure.joinRow i j = g.closure :=
    joinRow_of_joinRows_eq hsettled (mem_pairs i j)
  exact pointsTo_iff_reaches (within_closure g) (Traces.refl g).closure hjoined i j

theorem closure_trans {g : Graph n} {i j k : Fin n} (hij : g.closure.pointsTo i j = true)
    (hjk : g.closure.pointsTo j k = true) : g.closure.pointsTo i k = true := by
  rw [pointsTo_closure_iff] at hij hjk ⊢
  exact hij.trans hjk

theorem degree_eq_countP (g : Graph n) (i : Fin n) :
    g.degree i = (List.finRange n).countP (g.pointsTo i) := by
  have hrow : g[i].toList = (List.finRange n).map (g.pointsTo i) := by
    apply List.ext_getElem <;> simp [pointsTo]
  rw [degree, hrow, List.count_eq_countP, List.countP_map]
  congr 1
  funext j
  simp

/-- A node on no cycle has fewer nodes below it than a node that points to it. -/
theorem degree_lt {g : Graph n} {i j : Fin n} (hij : g.closure.pointsTo i j = true)
    (hj : g.closure.pointsTo j j = false) : g.closure.degree j < g.closure.degree i := by
  rw [degree_eq_countP, degree_eq_countP]
  exact countP_lt_of_imp (fun k hk => closure_trans hij hk) (List.mem_finRange j) hij hj

end QueryShape.Graph
