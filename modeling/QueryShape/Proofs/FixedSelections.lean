import Mathlib.Algebra.GroupWithZero.Nat
import Mathlib.Algebra.Order.BigOperators.Group.List
import Mathlib.Algebra.Order.Group.Nat
import Mathlib.Logic.Function.Iterate
import QueryShape.Proofs.Height
import QueryShape.Proofs.Merging

/-!
# Selections that flattening leaves alone

Each branch that is folded or merged is a selection set less. So flattening makes a selection
smaller or finds nothing to do at any depth.
-/

namespace QueryShape

theorem Field.mapNested_eq_self {σ : Type} {f : σ → σ} {field : Field σ}
    (h : ∀ nested, field.nested? = some nested → f nested = nested) :
    field.mapNested f = field := by
  obtain ⟨key, wrapping, core⟩ := field
  cases core with
  | scalar | enum | typename => rfl
  | selection nested =>
      have hn := h nested rfl
      simp only [mapNested, hn]

namespace Selection

section

variable {ρ : Type}

/-- A selection and all selections inside of it, at any depth, are in `r`. -/
inductive Throughout (r : Selection ρ → Prop) : Selection ρ → Prop where
  | intro {selection : Selection ρ} (here : r selection)
      (inside : ∀ child ∈ selection.children, Throughout r child) : Throughout r selection

theorem throughout_iff {r : Selection ρ → Prop} {selection : Selection ρ} :
    selection.Throughout r ↔ r selection ∧ ∀ child ∈ selection.children, child.Throughout r := by
  constructor
  · rintro ⟨here, inside⟩
    exact ⟨here, inside⟩
  · rintro ⟨here, inside⟩
    exact ⟨here, inside⟩

theorem count_eq_sum (selection : Selection ρ) :
    selection.count = 1 + (selection.children.map count).sum := by
  have hfields (fields : List (Field (Selection ρ))) :
      countFields fields = ((fields.filterMap Field.nested?).map count).sum := by
    induction fields with
    | nil => rfl
    | cons field fields ih =>
        obtain ⟨key, wrapping, core⟩ := field
        cases core <;> simp [countFields, Field.nested?, List.filterMap_cons, ih]
  have hbranches (branches : List (Selection ρ)) :
      countBranches branches = (branches.map count).sum := by
    induction branches with
    | nil => rfl
    | cons branch branches ih => rw [countBranches, ih, List.map_cons, List.sum_cons]
  rw [count_eq, children, hfields, hbranches, List.map_append, List.sum_append]

end

variable {selection branch : LinkedSelection} {branches : List LinkedSelection}

/-- The branches are on types that differ from each other and from the selection's own. -/
structure Apart (selection : LinkedSelection) : Prop where
  distinct : (selection.branches.map on).Nodup
  other : ∀ branch ∈ selection.branches, branch.on ≠ selection.on

/-! ### One step of flattening -/

/-- A selection with its own branches folded and merged, and with nothing done inside. -/
def merged (selection : LinkedSelection) : LinkedSelection :=
  { selection.collapse with branches := mergeSiblings selection.collapse.branches }

theorem flatten_eq_merged (selection : LinkedSelection) :
    selection.flatten =
      ⟨selection.on, selection.possible, selection.merged.fields.map (Field.mapNested flatten),
        selection.merged.branches.map flatten, selection.spreads⟩ := by
  have hspreads : selection.spreads = [] :=
    List.eq_nil_iff_forall_not_mem.mpr fun spread => spread.elim
  rw [flatten_eq, merged, collapse, hspreads]

theorem children_flatten (selection : LinkedSelection) :
    selection.flatten.children = selection.merged.children.map flatten := by
  rw [flatten_eq_merged, children, children, List.map_append, List.filterMap_map,
    List.map_filterMap]
  congr 2
  funext field
  exact Field.nested?_mapNested flatten field

theorem flatten_induction {motive : LinkedSelection → Prop}
    (step : ∀ selection : LinkedSelection,
      (∀ child ∈ selection.merged.children, motive child) → motive selection)
    (selection : LinkedSelection) : motive selection := by
  induction selection using flatten.induct with
  | case1 selection ihNested ihBranch =>
      apply step
      intro child hc
      rcases mem_children_iff.mp hc with ⟨field, hf, hn⟩ | hb
      · exact ihNested field hf child hn
      · exact ihBranch child hb

theorem collapse_eq_self (h : ∀ branch ∈ selection.branches, branch.on ≠ selection.on) :
    selection.collapse = selection := by
  obtain ⟨on, possible, fields, branches, spreads⟩ := selection
  have hfields : (branches.flatMap fun branch =>
      if branch.on = on then branch.fields else []) = [] := by
    apply List.flatMap_eq_nil_iff.mpr
    intro branch hb
    exact if_neg (h branch hb)
  have hbranches : (branches.flatMap fun branch =>
      if branch.on = on then branch.branches else [branch]) = branches := by
    have hsame : (branches.flatMap fun branch =>
        if branch.on = on then branch.branches else [branch]) = branches.flatMap ([·]) := by
      apply List.flatMap_congr
      intro branch hb
      exact if_neg (h branch hb)
    rw [hsame, List.flatMap_singleton']
  simp only [collapse, hfields, hbranches, List.append_nil]

theorem mergeBranch_of_not_mem (h : branch.on ∉ branches.map on) :
    mergeBranch branch branches = branches ++ [branch] := by
  induction branches with
  | nil => rfl
  | cons first rest ih =>
      rw [List.map_cons, List.mem_cons, not_or] at h
      rw [mergeBranch, if_neg (Ne.symm h.1), ih h.2, List.cons_append]

theorem nodup_concat_iff : ((branches ++ [branch]).map on).Nodup ↔
    (branches.map on).Nodup ∧ branch.on ∉ branches.map on := by
  rw [List.map_append, List.map_singleton, ← List.concat_eq_append, List.nodup_concat]
  exact and_comm

theorem mergeSiblings_eq_self (h : (branches.map on).Nodup) :
    mergeSiblings branches = branches := by
  induction branches using List.reverseRecOn with
  | nil => rfl
  | append_singleton branches branch ih =>
      obtain ⟨hnodup, hnew⟩ := nodup_concat_iff.mp h
      rw [mergeSiblings_concat, ih hnodup, mergeBranch_of_not_mem hnew]

theorem Apart.merged_eq_self (h : selection.Apart) : selection.merged = selection := by
  have hcollapse := collapse_eq_self h.other
  have hsiblings := mergeSiblings_eq_self h.distinct
  rw [merged, hcollapse, hsiblings]
  cases selection
  rfl

theorem nodup_of_countBranches_le
    (h : countBranches branches ≤ countBranches (mergeSiblings branches)) :
    (branches.map on).Nodup := by
  induction branches using List.reverseRecOn with
  | nil => exact List.nodup_nil
  | append_singleton branches branch ih =>
      have hstep := countBranches_mergeBranch branch (mergeSiblings branches)
      have hle := countBranches_mergeSiblings_le branches
      simp only [mergeSiblings_concat, countBranches_append, countBranches] at h
      have hnew : branch.on ∉ (mergeSiblings branches).map on := by
        intro hb
        rw [if_pos hb] at hstep
        omega
      rw [if_neg hnew] at hstep
      rw [map_on_mergeSiblings, List.mem_eraseDups] at hnew
      exact nodup_concat_iff.mpr ⟨ih (by omega), hnew⟩

theorem count_merged (selection : LinkedSelection) : selection.merged.count =
    1 + (countFields selection.collapse.fields +
      countBranches (mergeSiblings selection.collapse.branches)) :=
  count_eq selection.merged

theorem count_merged_le (selection : LinkedSelection) :
    selection.merged.count ≤ selection.count := by
  have hsiblings := countBranches_mergeSiblings_le selection.collapse.branches
  have hcollapse := count_collapse_le selection
  rw [count_eq selection.collapse] at hcollapse
  rw [count_merged]
  omega

theorem apart_of_count_merged (h : selection.count ≤ selection.merged.count) :
    selection.Apart := by
  have hsiblings := countBranches_mergeSiblings_le selection.collapse.branches
  have hcollapse := count_collapse selection
  rw [count_eq selection.collapse] at hcollapse
  rw [count_merged] at h
  have hother : ∀ branch ∈ selection.branches, branch.on ≠ selection.on := by
    have hnone : selection.branches.countP (·.on = selection.on) = 0 := by omega
    simpa using List.countP_eq_zero.mp hnone
  have hdistinct : (selection.collapse.branches.map on).Nodup :=
    nodup_of_countBranches_le (by omega)
  rw [collapse_eq_self hother] at hdistinct
  exact ⟨hdistinct, hother⟩

/-! ### Flattening -/

theorem count_flatten (selection : LinkedSelection) : selection.flatten.count =
    1 + (selection.merged.children.map fun child => child.flatten.count).sum := by
  rw [count_eq_sum, children_flatten, List.map_map]
  rfl

theorem count_flatten_le (selection : LinkedSelection) :
    selection.flatten.count ≤ selection.count := by
  induction selection using flatten_induction with
  | step selection ih =>
      have hinside := List.sum_le_sum ih
      have hmerged := count_merged_le selection
      rw [count_eq_sum selection.merged] at hmerged
      rw [count_flatten]
      omega

/-- A selection that is as large after flattening had nothing to fold or merge in it. -/
theorem apart_of_count_flatten (h : selection.count ≤ selection.flatten.count) :
    selection.Throughout Apart := by
  induction selection using flatten_induction with
  | step selection ih =>
      have hmerged := count_merged_le selection
      have hinside := List.sum_le_sum fun child (_ : child ∈ selection.merged.children) =>
        count_flatten_le child
      rw [count_flatten] at h
      have hsum := count_eq_sum selection.merged
      have hapart : selection.Apart := apart_of_count_merged (by omega)
      refine throughout_iff.mpr ⟨hapart, fun child hc => ?_⟩
      rw [← hapart.merged_eq_self] at hc
      apply ih child hc
      apply Nat.le_of_not_lt
      intro hlt
      have hless := List.sum_lt_sum _ _ (fun child (_ : child ∈ selection.merged.children) =>
        count_flatten_le child) ⟨child, hc, hlt⟩
      omega

theorem flatten_eq_self (h : selection.Throughout Apart) : selection.flatten = selection := by
  induction selection using flatten_induction with
  | step selection ih =>
      obtain ⟨hapart, hinside⟩ := throughout_iff.mp h
      have hmerged := hapart.merged_eq_self
      rw [hmerged] at ih
      have hchild (child : LinkedSelection) (hc : child ∈ selection.children) :
          child.flatten = child := ih child hc (hinside child hc)
      have hfields : selection.fields.map (Field.mapNested flatten) = selection.fields := by
        apply map_eq_self
        intro field hf
        apply Field.mapNested_eq_self
        intro nested hn
        exact hchild nested (mem_children_iff.mpr (.inl ⟨field, hf, hn⟩))
      have hbranches : selection.branches.map flatten = selection.branches := by
        apply map_eq_self
        intro branch hb
        exact hchild branch (mem_children_iff.mpr (.inr hb))
      rw [flatten_eq_merged, hmerged, hfields, hbranches]
      cases selection
      rfl

theorem distinct_flatten (selection : LinkedSelection) :
    selection.flatten.Throughout fun inner => (inner.branches.map on).Nodup := by
  induction selection using flatten_induction with
  | step selection ih =>
      have honTypes : selection.flatten.branches.map on =
          (mergeSiblings selection.collapse.branches).map on := by
        rw [flatten_eq, List.map_map]
        exact List.map_congr_left fun branch _ => flatten_on branch
      rw [throughout_iff, honTypes, map_on_mergeSiblings, children_flatten, List.forall_mem_map]
      exact ⟨nodup_eraseDups _, ih⟩

theorem count_flatten_lt (h : ¬ selection.Throughout Apart) :
    selection.flatten.count < selection.count := by
  apply Nat.lt_of_not_le
  intro hle
  exact h (apart_of_count_flatten hle)

theorem flatten_eq_self_iff : selection.flatten = selection ↔ selection.Throughout Apart := by
  constructor
  · intro h
    apply apart_of_count_flatten
    rw [h]
  · exact flatten_eq_self

theorem apart_iterate_flatten {times : Nat} (h : selection.count ≤ times) :
    (flatten^[times] selection).Throughout Apart := by
  induction times generalizing selection with
  | zero =>
      have hcount := count_eq selection
      omega
  | succ times ih =>
      by_cases hs : selection.Throughout Apart
      · have hfixed := flatten_eq_self hs
        rwa [Function.iterate_fixed hfixed]
      · have hless := count_flatten_lt hs
        rw [Function.iterate_succ_apply]
        exact ih (by omega)

/-- Flattening leaves the branches of every selection set on distinct types. It leaves a whole
selection as it is just where this is so already and no branch is on the type of its own selection
set, and otherwise it makes the selection smaller. So flattening as often as there are selection
sets in a selection always ends in one that stays as it is. -/
theorem flatten_fixed_or_smaller (selection : LinkedSelection) :
    (selection.flatten.Throughout fun inner => (inner.branches.map on).Nodup) ∧
      (selection.flatten = selection ↔ selection.Throughout Apart) ∧
      (selection.flatten ≠ selection → selection.flatten.count < selection.count) ∧
      ∀ times, selection.count ≤ times →
        (flatten^[times] selection).flatten = flatten^[times] selection ∧
          (flatten^[times] selection).Throughout Apart := by
  refine ⟨distinct_flatten selection, flatten_eq_self_iff, ?_, ?_⟩
  · intro hne
    apply count_flatten_lt
    intro hs
    exact hne (flatten_eq_self hs)
  · intro times ht
    have hs := apart_iterate_flatten ht
    exact ⟨flatten_eq_self hs, hs⟩

end Selection
end QueryShape
