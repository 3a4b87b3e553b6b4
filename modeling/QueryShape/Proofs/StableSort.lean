import Mathlib.Data.List.Basic
import Mathlib.Data.List.Pairwise

/-!
# Stable sorting

Merge sort by a weight puts light before heavy and keeps the order of what weighs the same.
-/

namespace QueryShape

variable {α : Type}

/-- A list is sorted by a weight, and among equal weights it keeps the order of another list. -/
structure StablySorted (weight : α → Nat) (before after : List α) : Prop where
  perm : after.Perm before
  ascending : after.Pairwise fun a b => weight a ≤ weight b
  stable : ∀ n, after.filter (weight · = n) = before.filter (weight · = n)

theorem stablySorted_mergeSort (weight : α → Nat) (l : List α) :
    StablySorted weight l (l.mergeSort fun a b => weight a ≤ weight b) := by
  have htrans (a b c : α) (hab : decide (weight a ≤ weight b) = true)
      (hbc : decide (weight b ≤ weight c) = true) : decide (weight a ≤ weight c) = true := by
    simp only [decide_eq_true_eq] at hab hbc ⊢
    exact Nat.le_trans hab hbc
  have htotal (a b : α) :
      (decide (weight a ≤ weight b) || decide (weight b ≤ weight a)) = true := by
    simpa using Nat.le_total (weight a) (weight b)
  have hperm := List.mergeSort_perm l fun a b => decide (weight a ≤ weight b)
  refine ⟨hperm, by simpa using List.pairwise_mergeSort htrans htotal l, fun n => ?_⟩
  -- The members of one weight are in order already, so sorting keeps them as a sublist.
  have hclass : (l.filter (weight · = n)).Pairwise
      fun a b => decide (weight a ≤ weight b) = true := by
    apply List.pairwise_of_forall_mem_list
    intro a ha b hb
    have hwa : weight a = n := by simpa using (List.mem_filter.mp ha).2
    have hwb : weight b = n := by simpa using (List.mem_filter.mp hb).2
    simp [hwa, hwb]
  have hkept := List.sublist_mergeSort htrans htotal hclass List.filter_sublist
  have hsub := hkept.filter (weight · = n)
  rw [List.filter_filter] at hsub
  simp only [Bool.and_self] at hsub
  exact (hsub.eq_of_length (hperm.filter _).length_eq.symm).symm

private theorem mem_iff_of_filter_eq {weight : α → Nat} {xs ys : List α}
    (h : ∀ n, xs.filter (weight · = n) = ys.filter (weight · = n)) (a : α) : a ∈ xs ↔ a ∈ ys := by
  have ha : a ∈ xs.filter (weight · = weight a) ↔ a ∈ ys.filter (weight · = weight a) := by
    rw [h]
  simpa using ha

/-- Two ascending lists that agree on every weight are the same. -/
private theorem eq_of_ascending {weight : α → Nat} {xs ys : List α}
    (hx : xs.Pairwise fun a b => weight a ≤ weight b)
    (hy : ys.Pairwise fun a b => weight a ≤ weight b)
    (h : ∀ n, xs.filter (weight · = n) = ys.filter (weight · = n)) : xs = ys := by
  have hmem := mem_iff_of_filter_eq h
  induction xs generalizing ys with
  | nil =>
      cases ys with
      | nil => rfl
      | cons b ys => simpa using hmem b
  | cons a xs ih =>
      cases ys with
      | nil => simpa using hmem a
      | cons b ys =>
          obtain ⟨hax, hxs⟩ := List.pairwise_cons.mp hx
          obtain ⟨hby, hys⟩ := List.pairwise_cons.mp hy
          -- Each head is among the members of the other list, so it weighs no less.
          have hle : weight a ≤ weight b := by
            rcases List.mem_cons.mp ((hmem b).mpr List.mem_cons_self) with rfl | hb
            · exact Nat.le_refl _
            · exact hax b hb
          have hge : weight b ≤ weight a := by
            rcases List.mem_cons.mp ((hmem a).mp List.mem_cons_self) with rfl | ha
            · exact Nat.le_refl _
            · exact hby a ha
          have hw : weight b = weight a := Nat.le_antisymm hge hle
          have hheads := h (weight a)
          simp only [List.filter_cons, hw, decide_true, if_true, List.cons.injEq] at hheads
          obtain ⟨rfl, -⟩ := hheads
          have hrest (n : Nat) : xs.filter (weight · = n) = ys.filter (weight · = n) := by
            have hn := h n
            by_cases han : weight a = n <;> simpa [List.filter_cons, han] using hn
          rw [ih hxs hys hrest (mem_iff_of_filter_eq hrest)]

theorem StablySorted.unique {weight : α → Nat} {before after other : List α}
    (h : StablySorted weight before after) (ho : StablySorted weight before other) :
    after = other :=
  eq_of_ascending h.ascending ho.ascending fun n => (h.stable n).trans (ho.stable n).symm

theorem idxOf_lt_of_weight_lt [DecidableEq α] {weight : α → Nat} {l : List α}
    (h : l.Pairwise fun a b => weight a ≤ weight b) {a b : α} (ha : a ∈ l) (hb : b ∈ l)
    (hlt : weight a < weight b) : l.idxOf a < l.idxOf b := by
  apply Nat.lt_of_not_le
  intro hle
  have hia := List.idxOf_lt_length_of_mem ha
  have hib := List.idxOf_lt_length_of_mem hb
  have hne : l.idxOf b ≠ l.idxOf a := by
    intro heq
    have hsame : b = a := (List.idxOf_inj hb).mp heq
    rw [hsame] at hlt
    omega
  have hweights := List.pairwise_iff_getElem.mp h _ _ hib hia (by omega)
  rw [List.getElem_idxOf, List.getElem_idxOf] at hweights
  omega

end QueryShape
