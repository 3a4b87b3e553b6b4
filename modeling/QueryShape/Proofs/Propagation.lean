import Mathlib.Data.List.ProdSigma
import Mathlib.Logic.Function.Iterate
import QueryShape.Proofs.TransitiveClosure

/-!
# Propagation until nothing changes

A sweep can be made entry by entry, in any order of the pairs of nodes, with a flag for each edge
added. Sweeps that are repeated until one changes nothing end with the closure.
-/

namespace QueryShape.Graph

variable {n : Nat}

theorem missing_le (g : Graph n) : g.missing ≤ n * n := by
  have hlength : (pairs n).length = n * n := by
    have hpairs : pairs n = List.finRange n ×ˢ List.finRange n := rfl
    rw [hpairs, List.length_product, List.length_finRange]
  rw [← hlength]
  exact List.countP_le_length

/-- The sweeps up to the closure each change something, and no later one does. -/
theorem exists_sweeps (g : Graph n) :
    ∃ adding ≤ g.missing, sweep^[adding] g = g.closure ∧
      ∀ m, sweep^[m + 1] g = sweep^[m] g ↔ adding ≤ m := by
  fun_induction closure g with
  | case1 g hfixed =>
      have hiterate (m : Nat) : sweep^[m] g = g := Function.iterate_fixed hfixed m
      exact ⟨0, Nat.zero_le _, rfl, fun m => by simp [hiterate]⟩
  | case2 g hchanges ih =>
      obtain ⟨adding, hle, hend, hiff⟩ := ih
      have hlt := missing_lt (within_sweep g) hchanges
      refine ⟨adding + 1, by omega, hend, ?_⟩
      intro m
      cases m with
      | zero => simpa using hchanges
      | succ m =>
          have hnext := hiff m
          rw [← Function.iterate_succ_apply, ← Function.iterate_succ_apply] at hnext
          rw [hnext]
          omega

def insertEdge (g : Graph n) (i k : Fin n) : Graph n :=
  g.set i ((g.get i).set k true k.isLt) i.isLt

theorem pointsTo_insertEdge (g : Graph n) (i k a b : Fin n) :
    (g.insertEdge i k).pointsTo a b = (g.pointsTo a b || (a == i && b == k)) := by
  by_cases ha : a = i
  · subst ha
    have hrow : g.get a = g[a] := rfl
    by_cases hb : b = k
    · simp [hb, pointsTo, insertEdge]
    · have hb' : (k : Nat) ≠ b := fun e => hb (Fin.ext e.symm)
      simp [pointsTo, insertEdge, hrow, hb, hb']
  · have ha' : (i : Nat) ≠ a := fun e => ha (Fin.ext e.symm)
    simp [pointsTo, insertEdge, ha, ha']

/-- A matrix in the course of a sweep, and whether the sweep has added an edge to it. -/
structure Swept (n : Nat) where
  graph : Graph n
  changed : Bool

namespace Swept

def addEdge (s : Swept n) (i j k : Fin n) : Swept n :=
  if s.graph.pointsTo j k && !s.graph.pointsTo i k then ⟨s.graph.insertEdge i k, true⟩ else s

/-- If `i` points to `j`, goes through row `j` and adds to row `i` the edges that it lacks. -/
def addRow (s : Swept n) (i j : Fin n) : Swept n :=
  if s.graph.pointsTo i j then (List.finRange n).foldl (fun s k => s.addEdge i j k) s else s

theorem pointsTo_addEdge (s : Swept n) (i j k a b : Fin n) :
    (s.addEdge i j k).graph.pointsTo a b =
      (s.graph.pointsTo a b || (a == i && b == k && s.graph.pointsTo j k)) := by
  unfold addEdge
  split
  · next hnew =>
    simp only [Bool.and_eq_true] at hnew
    rw [pointsTo_insertEdge, hnew.1, Bool.and_true]
  · next hold =>
    have hik : s.graph.pointsTo j k = true → s.graph.pointsTo i k = true := by simpa using hold
    rw [Bool.eq_iff_iff]
    simp only [Bool.or_eq_true, Bool.and_eq_true, beq_iff_eq, iff_self_or]
    intro ⟨⟨ha, hb⟩, hjk⟩
    rw [ha, hb]
    exact hik hjk

/-- Row `j` may be row `i` itself, but what is added to row `i` from row `j` is in row `j`. -/
theorem pointsTo_addEdges (s : Swept n) (i j : Fin n) (ks : List (Fin n)) (a b : Fin n) :
    (ks.foldl (fun s k => s.addEdge i j k) s).graph.pointsTo a b =
      (s.graph.pointsTo a b || (a == i && ks.contains b && s.graph.pointsTo j b)) := by
  induction ks generalizing s with
  | nil => simp
  | cons k ks ih =>
      rw [List.foldl_cons, ih, pointsTo_addEdge, pointsTo_addEdge, List.contains_cons]
      grind

theorem graph_addRow (s : Swept n) (i j : Fin n) :
    (s.addRow i j).graph = s.graph.joinRow i j := by
  apply ext_pointsTo
  intro a b
  rw [pointsTo_joinRow]
  unfold addRow
  split
  · next hij => simp [pointsTo_addEdges, hij]
  · next hij => simp [hij]

/-- Since the matrix was `g` no edge was lost, and the flag was raised just if one was added. -/
structure Tracks (s : Swept n) (g : Graph n) : Prop where
  within : Within g s.graph
  changed_iff : s.changed = true ↔ s.graph ≠ g

theorem tracks_start (g : Graph n) : Tracks ⟨g, false⟩ g := ⟨.refl g, by simp⟩

theorem Tracks.addEdge {s : Swept n} {g : Graph n} (h : s.Tracks g) (i j k : Fin n) :
    (s.addEdge i j k).Tracks g := by
  unfold Swept.addEdge
  split
  · next hnew =>
    have hmissing : s.graph.pointsTo i k = false := by
      simp only [Bool.and_eq_true, Bool.not_eq_true'] at hnew
      exact hnew.2
    have hne : s.graph.insertEdge i k ≠ g := by
      intro heq
      have hik : (s.graph.insertEdge i k).pointsTo i k = true := by simp [pointsTo_insertEdge]
      rw [heq] at hik
      have hfound := h.within i k hik
      rw [hmissing] at hfound
      contradiction
    constructor
    · intro a b hab
      rw [pointsTo_insertEdge, h.within a b hab, Bool.true_or]
    · simp [hne]
  · exact h

theorem Tracks.addRow {s : Swept n} {g : Graph n} (h : s.Tracks g) (i j : Fin n) :
    (s.addRow i j).Tracks g := by
  unfold Swept.addRow
  split
  · exact List.foldlRecOn (motive := fun s => Swept.Tracks s g) (List.finRange n) _ h
      fun _ hs k _ => hs.addEdge i j k
  · exact h

end Swept

/-- An order in which a sweep visits the pairs of nodes, each of them at least once. -/
structure VisitingOrder (n : Nat) where
  visits : List (Fin n × Fin n)
  mem_visits : ∀ i j, (i, j) ∈ visits

def rowByRow (n : Nat) : VisitingOrder n := ⟨pairs n, mem_pairs⟩

namespace VisitingOrder

variable (order : VisitingOrder n)

/-- At the visit of `i` and `j`, row `j` is added to row `i` in place. -/
def sweep (g : Graph n) : Swept n :=
  order.visits.foldl (fun s pair => s.addRow pair.1 pair.2) ⟨g, false⟩

/-- Sweeps until one changes nothing; there is no result if that takes more than `limit` sweeps. -/
def propagate? : (limit : Nat) → Graph n → Option (Graph n)
  | 0, _ => none
  | limit + 1, g =>
      let swept := order.sweep g
      if swept.changed then propagate? limit swept.graph else some swept.graph

theorem graph_sweep (g : Graph n) : (order.sweep g).graph = g.joinRows order.visits := by
  have hrow (s : Swept n) (pair : Fin n × Fin n) :
      s.graph.joinRow pair.1 pair.2 = (s.addRow pair.1 pair.2).graph :=
    (s.graph_addRow pair.1 pair.2).symm
  exact (List.foldl_hom Swept.graph hrow).symm

theorem tracks_sweep (g : Graph n) : (order.sweep g).Tracks g :=
  List.foldlRecOn (motive := fun s => Swept.Tracks s g) order.visits _ (Swept.tracks_start g)
    fun _ hs pair _ => hs.addRow pair.1 pair.2

/-- Before each sweep the matrix is between `g` and the paths of `g`, and the limit exceeds the
number of edges that can still be added. -/
theorem propagate?_eq {g h : Graph n} (hwithin : Within g h) (htraces : Traces g h)
    {limit : Nat} (hlimit : h.missing < limit) : order.propagate? limit h = some g.closure := by
  induction limit generalizing h with
  | zero => omega
  | succ limit ih =>
      have htracks := order.tracks_sweep h
      rw [propagate?]
      by_cases hchanged : (order.sweep h).changed = true
      · have hlt := missing_lt htracks.within (htracks.changed_iff.mp hchanged)
        have htraces' : Traces g (order.sweep h).graph := by
          rw [graph_sweep]
          exact htraces.joinRows order.visits
        rw [if_pos hchanged]
        exact ih (hwithin.trans htracks.within) htraces' (by omega)
      · have hfixed : (order.sweep h).graph = h := by
          apply Classical.byContradiction
          intro hne
          exact hchanged (htracks.changed_iff.mpr hne)
        have hjoined (i j : Fin n) : h.joinRow i j = h := by
          rw [graph_sweep] at hfixed
          exact joinRow_of_joinRows_eq hfixed (order.mem_visits i j)
        have hclosed : h = g.closure := by
          apply ext_pointsTo
          intro i k
          rw [Bool.eq_iff_iff, pointsTo_closure_iff]
          exact pointsTo_iff_reaches hwithin htraces hjoined i k
        rw [if_neg hchanged, hfixed, hclosed]

end VisitingOrder

theorem sweep_rowByRow (g : Graph n) :
    (rowByRow n).sweep g = ⟨g.sweep, decide (g.sweep ≠ g)⟩ := by
  have hgraph : ((rowByRow n).sweep g).graph = g.sweep := by
    rw [VisitingOrder.graph_sweep, sweep_eq_joinRows, rowByRow]
  have hchanged : ((rowByRow n).sweep g).changed = decide (g.sweep ≠ g) := by
    rw [Bool.eq_iff_iff, decide_eq_true_iff, ← hgraph]
    exact ((rowByRow n).tracks_sweep g).changed_iff
  rw [← hchanged, ← hgraph]

/-- The closure of a graph has an edge just where the graph has a path of one or more edges. It is
reached by at most `n * n` sweeps that each change something, and no sweep after these does. Row by
row, in place and with a flag, is one way to make these sweeps; in this and in every other order in
which the pairs of nodes are visited, sweeping until nothing changes takes at most `n * n + 1` sweeps
and ends with the closure. -/
theorem propagation_ends_with_reachability (g : Graph n) :
    (∀ i k, g.closure.pointsTo i k = true ↔ g.Reaches i k) ∧
      (∃ adding ≤ n * n, sweep^[adding] g = g.closure ∧
        ∀ m, sweep^[m + 1] g = sweep^[m] g ↔ adding ≤ m) ∧
      (∀ h : Graph n, (rowByRow n).sweep h = ⟨h.sweep, decide (h.sweep ≠ h)⟩) ∧
      ∀ order : VisitingOrder n, order.propagate? (n * n + 1) g = some g.closure := by
  refine ⟨g.pointsTo_closure_iff, ?_, sweep_rowByRow, ?_⟩
  · obtain ⟨adding, hle, hsweeps⟩ := g.exists_sweeps
    exact ⟨adding, Nat.le_trans hle g.missing_le, hsweeps⟩
  · intro order
    have hmissing := g.missing_le
    exact order.propagate?_eq (.refl g) (.refl g) (by omega)

-- A path that turns back is found in one sweep if its end is visited first. Row by row it takes two
-- sweeps, and one more that changes nothing.
example :
    let zigzag : Graph 4 := #v[#v[false, false, true, false], #v[false, false, false, true],
      #v[false, true, false, false], #v[false, false, false, false]]
    let reached : Graph 4 := #v[#v[false, true, true, true], #v[false, false, false, true],
      #v[false, true, false, true], #v[false, false, false, false]]
    let backwards : VisitingOrder 4 := ⟨(pairs 4).reverse, by decide⟩
    backwards.propagate? 2 zigzag = some reached ∧
      (rowByRow 4).propagate? 2 zigzag = none ∧ (rowByRow 4).propagate? 3 zigzag = some reached := by
  decide +kernel

end QueryShape.Graph
