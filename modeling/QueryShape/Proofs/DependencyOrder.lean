import Mathlib.Data.List.FinRange
import QueryShape.LinkOrder
import QueryShape.Proofs.StableSort
import QueryShape.Proofs.TransitiveClosure

/-!
# The link order

A link order holds every declared name once, and each name comes after all the names it spreads:
these have fewer dependencies.
-/

namespace QueryShape.LinkOrder

variable {names : List String} {spreadBy : String → List String}

theorem pointsTo_spreads (i j : Fin names.length) :
    (spreads names spreadBy).pointsTo i j =
      (spreadBy (names.get i)).contains (names.get j) := by
  simp [spreads, Graph.pointsTo]

theorem mem_of_unknown?_eq_none (h : unknown? names spreadBy = none) (name : String)
    (hn : name ∈ names) (reference : String) (hr : reference ∈ spreadBy name) :
    reference ∈ names := by
  have hno := List.find?_eq_none.mp h reference (List.mem_flatMap.mpr ⟨name, hn, hr⟩)
  simpa using hno

private theorem perm_map_get {numbers : List (Fin names.length)}
    (h : numbers.Perm (List.finRange names.length)) : (numbers.map names.get).Perm names := by
  have hp := h.map names.get
  rwa [List.map_get_finRange] at hp

private theorem pointsTo_mem_before {g : Graph names.length}
    {before after : List (Fin names.length)} {i j : Fin names.length}
    (hperm : (before ++ i :: after).Perm (List.finRange names.length))
    (hsorted : (before ++ i :: after).Pairwise fun a b => g.closure.degree a ≤ g.closure.degree b)
    (hij : g.closure.pointsTo i j = true) (hj : g.closure.pointsTo j j = false) :
    j ∈ before := by
  have hlt := Graph.degree_lt hij hj
  have hmem : j ∈ before ++ i :: after := hperm.mem_iff.mpr (List.mem_finRange j)
  rcases List.mem_append.mp hmem with hb | ha
  · exact hb
  · rcases List.mem_cons.mp ha with rfl | ha
    · omega
    · have hle := (List.pairwise_cons.mp (List.pairwise_append.mp hsorted).2.1).1 j ha
      omega

theorem sorted_error {error : TypingError} (h : sorted names spreadBy = .error error) :
    (∃ name, .unknownFragment name = error) ∨ ∃ cyclic, .cyclicFragments cyclic = error := by
  unfold sorted at h
  cases hu : unknown? names spreadBy with
  | some name =>
      rw [hu] at h
      cases h
      exact .inl ⟨name, rfl⟩
  | none =>
      rw [hu] at h
      dsimp only at h
      split at h
      · cases h
        exact .inr ⟨_, rfl⟩
      · cases h

/-- Where a link order is found, all names are known, no fragment is on a cycle, and the order is a
sort by degrees. -/
theorem sorted_eq_ok {order : List String} (h : sorted names spreadBy = .ok order) :
    unknown? names spreadBy = none ∧
      (∀ i, (spreads names spreadBy).closure.pointsTo i i = false) ∧
      order = ((List.finRange names.length).mergeSort fun i j =>
        (spreads names spreadBy).closure.degree i ≤
          (spreads names spreadBy).closure.degree j).map names.get := by
  unfold sorted at h
  cases hu : unknown? names spreadBy with
  | some name =>
      rw [hu] at h
      cases h
  | none =>
      rw [hu] at h
      dsimp only at h
      split at h
      · cases h
      · next hcyclic =>
        cases h
        refine ⟨rfl, fun i => ?_, rfl⟩
        apply Bool.eq_false_iff.mpr
        intro hi
        exact hcyclic (by simpa using ⟨i, hi⟩)

theorem sorted_spec {order : List String} (h : sorted names spreadBy = .ok order) :
    order.Perm names ∧
      (∀ name ∈ names, ∀ reference ∈ spreadBy name, reference ∈ names) ∧
      ∀ done name rest, order = done ++ name :: rest →
        ∀ reference ∈ spreadBy name, reference ∈ done := by
  obtain ⟨hu, hacyclic, rfl⟩ := sorted_eq_ok h
  have hknown := mem_of_unknown?_eq_none hu
  have hsort := stablySorted_mergeSort (spreads names spreadBy).closure.degree
    (List.finRange names.length)
  refine ⟨perm_map_get hsort.perm, hknown, ?_⟩
  intro done name rest hsplit reference hr
  obtain ⟨before, tail, heq, rfl, htail⟩ := List.map_eq_append_iff.mp hsplit
  obtain ⟨i, after, rfl, rfl, rfl⟩ := List.map_eq_cons_iff.mp htail
  obtain ⟨j, rfl⟩ := List.mem_iff_get.mp (hknown (names.get i) (names.get_mem i) reference hr)
  rw [heq] at hsort
  have hedge : (spreads names spreadBy).pointsTo i j = true := by
    rw [pointsTo_spreads]
    simpa using hr
  have hbefore := pointsTo_mem_before hsort.perm hsort.ascending
    (Graph.within_closure _ i j hedge) (hacyclic j)
  exact List.mem_map.mpr ⟨j, hbefore, rfl⟩

end QueryShape.LinkOrder
