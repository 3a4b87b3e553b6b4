import Mathlib.Data.List.Dedup
import Mathlib.Data.List.Sort
import QueryShape.Proofs.TransitiveClosure

/-!
# Components of a graph

In a component every node reaches every other one. The nodes on cycles are those of the components
with more than one node and those that point to themselves.
-/

namespace QueryShape.Graph

variable {n : Nat} {g : Graph n}

/-- A node and another one that reach each other, or the same node twice. -/
def Mutual (g : Graph n) (i j : Fin n) : Prop := i = j ∨ (g.Reaches i j ∧ g.Reaches j i)

theorem Mutual.symm {i j : Fin n} (h : g.Mutual i j) : g.Mutual j i := by
  cases h with
  | inl heq => exact .inl heq.symm
  | inr hreach => exact .inr hreach.symm

theorem Mutual.trans {i j k : Fin n} (hij : g.Mutual i j) (hjk : g.Mutual j k) : g.Mutual i k := by
  cases hij with
  | inl heq => exact heq ▸ hjk
  | inr hij =>
      cases hjk with
      | inl heq => exact heq ▸ .inr hij
      | inr hjk => exact .inr ⟨hij.1.trans hjk.1, hjk.2.trans hij.2⟩

/-- Groups of nodes that hold each node once, together with just the nodes that are mutual with it.
Neither the order of the groups nor that of their members matters. -/
structure Components (g : Graph n) (groups : List (List (Fin n))) : Prop where
  perm : groups.flatten.Perm (List.finRange n)
  mem_iff : ∀ group ∈ groups, ∀ i ∈ group, ∀ j, j ∈ group ↔ g.Mutual i j

/-- There is more than one node in a group, or its node points to itself. -/
def isCyclic (g : Graph n) (group : List (Fin n)) : Bool :=
  1 < group.length || group.head?.any fun i => g.pointsTo i i

/-- The nodes of the cyclic groups in ascending order. -/
def cyclicNodes (g : Graph n) (groups : List (List (Fin n))) : List (Fin n) :=
  (groups.filter g.isCyclic).flatten.mergeSort (· ≤ ·)

theorem reaches_self_iff_of_alone {i : Fin n} (h : ∀ j, g.Mutual i j → j = i) :
    g.Reaches i i ↔ g.pointsTo i i = true := by
  constructor
  · intro hr
    obtain ⟨j, hedge, hback⟩ := Relation.TransGen.head'_iff.mp hr
    have hj : j = i := by
      cases Relation.reflTransGen_iff_eq_or_transGen.mp hback with
      | inl heq => exact heq.symm
      | inr hreach => exact h j (.inr ⟨.single hedge, hreach⟩)
    rwa [hj] at hedge
  · intro hedge
    exact .single hedge

namespace Components

variable {groups : List (List (Fin n))}

theorem nodup_flatten (h : g.Components groups) : groups.flatten.Nodup :=
  h.perm.nodup_iff.mpr (List.nodup_finRange n)

theorem exists_mem (h : g.Components groups) (i : Fin n) : ∃ group ∈ groups, i ∈ group :=
  List.mem_flatten.mp (h.perm.mem_iff.mpr (List.mem_finRange i))

/-- The nodes of a group are on cycles exactly if the group is cyclic. -/
theorem isCyclic_iff (h : g.Components groups) {group : List (Fin n)} (hg : group ∈ groups)
    {i : Fin n} (hi : i ∈ group) : g.isCyclic group = true ↔ g.Reaches i i := by
  have hmutual := h.mem_iff group hg i hi
  have hnodup := (List.nodup_flatten.mp h.nodup_flatten).1 group hg
  by_cases hlength : 1 < group.length
  · have hgroup : group ≠ [i] := by
      intro heq
      rw [heq, List.length_singleton] at hlength
      omega
    obtain ⟨j, hj, hne⟩ :=
      ((hnodup.ne_singleton_iff i).mp hgroup).resolve_left (List.ne_nil_of_mem hi)
    have hreach := ((hmutual j).mp hj).resolve_left fun heq => hne heq.symm
    have hself : g.Reaches i i := hreach.1.trans hreach.2
    simp [isCyclic, hlength, hself]
  · have hgroup : group = [i] := by
      obtain ⟨j, rfl⟩ : ∃ j, group = [j] := by
        have hpos := List.length_pos_of_mem hi
        exact List.length_eq_one_iff.mp (by omega)
      rw [List.mem_singleton.mp hi]
    have halone : ∀ j, g.Mutual i j → j = i := by
      intro j hj
      have hmem := (hmutual j).mpr hj
      rw [hgroup] at hmem
      exact List.mem_singleton.mp hmem
    rw [reaches_self_iff_of_alone halone, hgroup]
    simp [isCyclic]

theorem mem_cyclicNodes_iff (h : g.Components groups) (i : Fin n) :
    i ∈ g.cyclicNodes groups ↔ g.Reaches i i := by
  simp only [cyclicNodes, List.mem_mergeSort, List.mem_flatten, List.mem_filter]
  constructor
  · intro ⟨group, ⟨hg, hcyclic⟩, hi⟩
    exact (h.isCyclic_iff hg hi).mp hcyclic
  · intro hr
    obtain ⟨group, hg, hi⟩ := h.exists_mem i
    exact ⟨group, ⟨hg, (h.isCyclic_iff hg hi).mpr hr⟩, hi⟩

/-- The cyclic nodes are those that the closure finds on cycles. -/
theorem cyclicNodes_eq (h : g.Components groups) :
    g.cyclicNodes groups = (List.finRange n).filter fun i => g.closure.pointsTo i i := by
  have hcyclic : (groups.filter g.isCyclic).flatten.Nodup := by
    obtain ⟨hgroups, hdisjoint⟩ := List.nodup_flatten.mp h.nodup_flatten
    apply List.nodup_flatten.mpr
    exact ⟨fun group hg => hgroups group (List.mem_of_mem_filter hg), hdisjoint.filter _⟩
  have hnodup : (g.cyclicNodes groups).Nodup :=
    (List.mergeSort_perm _ _).nodup_iff.mpr hcyclic
  have hperm : (g.cyclicNodes groups).Perm
      ((List.finRange n).filter fun i => g.closure.pointsTo i i) := by
    apply (List.perm_ext_iff_of_nodup hnodup ((List.nodup_finRange n).filter _)).mpr
    intro i
    rw [h.mem_cyclicNodes_iff, List.mem_filter, pointsTo_closure_iff]
    simp [List.mem_finRange]
  have hsorted : (g.cyclicNodes groups).Pairwise (· ≤ ·) := List.pairwise_mergeSort' (· ≤ ·) _
  exact hperm.eq_of_pairwise' hsorted ((List.sortedLT_finRange n).sortedLE.pairwise.filter _)

end Components

def component (g : Graph n) (i : Fin n) : List (Fin n) :=
  (List.finRange n).filter fun j => i = j || (g.closure.pointsTo i j && g.closure.pointsTo j i)

theorem mem_component_iff {i j : Fin n} : j ∈ g.component i ↔ g.Mutual i j := by
  simp [component, Mutual, List.mem_finRange, pointsTo_closure_iff]

theorem component_eq_of_mutual {i j : Fin n} (h : g.Mutual i j) :
    g.component i = g.component j := by
  have hiff (k : Fin n) : k ∈ g.component i ↔ k ∈ g.component j := by
    rw [mem_component_iff, mem_component_iff]
    exact ⟨h.symm.trans, h.trans⟩
  apply List.filter_congr
  intro k _
  have hk := hiff k
  simp only [component, List.mem_filter, List.mem_finRange, true_and] at hk
  exact Bool.eq_iff_iff.mpr hk

theorem exists_components (g : Graph n) : ∃ groups, g.Components groups := by
  have hmem (group : List (Fin n)) :
      group ∈ ((List.finRange n).map g.component).dedup ↔ ∃ i, g.component i = group := by
    simp [List.mem_finRange]
  refine ⟨((List.finRange n).map g.component).dedup, ?_, ?_⟩
  · have hgroups : ∀ group ∈ ((List.finRange n).map g.component).dedup, group.Nodup := by
      intro group hg
      obtain ⟨i, rfl⟩ := (hmem group).mp hg
      exact (List.nodup_finRange n).filter _
    have hdisjoint : ((List.finRange n).map g.component).dedup.Pairwise List.Disjoint := by
      apply (List.nodup_dedup _).imp_of_mem
      intro group other hg ho hne k hk hk'
      obtain ⟨i, rfl⟩ := (hmem group).mp hg
      obtain ⟨j, rfl⟩ := (hmem other).mp ho
      have hij := (mem_component_iff.mp hk).trans (mem_component_iff.mp hk').symm
      exact hne (component_eq_of_mutual hij)
    have hnodup := List.nodup_flatten.mpr ⟨hgroups, hdisjoint⟩
    apply (List.perm_ext_iff_of_nodup hnodup (List.nodup_finRange n)).mpr
    intro i
    have hself : i ∈ g.component i := mem_component_iff.mpr (.inl rfl)
    have hflat := List.mem_flatten.mpr ⟨_, (hmem _).mpr ⟨i, rfl⟩, hself⟩
    exact iff_of_true hflat (List.mem_finRange i)
  · intro group hg i hi j
    obtain ⟨k, rfl⟩ := (hmem group).mp hg
    rw [component_eq_of_mutual (mem_component_iff.mp hi), mem_component_iff]

end QueryShape.Graph
