import QueryShape.Flattened
import QueryShape.Proofs.FirstOccurrences

/-!
# Merging branches

Merging gathers the branches of each type: one branch for every type that occurs, in the order of
the first occurrences, with the fields and the branches of all branches on that type.
-/

namespace QueryShape.Selection

/-- All branches on one type as one. -/
def gather (branches : List LinkedSelection) (type : String) : LinkedSelection :=
  let same := branches.filter (·.on = type)
  { on := type
    possible := (same.head?.map possible).getD []
    fields := same.flatMap fields
    branches := same.flatMap Selection.branches
    spreads := [] }

variable {branches : List LinkedSelection} {branch : LinkedSelection} {type : String}

theorem gather_append_of_ne (h : branch.on ≠ type) :
    gather (branches ++ [branch]) type = gather branches type := by
  simp [gather, List.filter_append, h]

theorem gather_append_of_mem (h : branch.on ∈ branches.map on) :
    gather (branches ++ [branch]) branch.on = (gather branches branch.on).absorb branch := by
  have hne : branches.filter (·.on = branch.on) ≠ [] := by
    obtain ⟨other, ho, hon⟩ := List.mem_map.mp h
    exact List.ne_nil_of_mem (List.mem_filter.mpr ⟨ho, by simpa using hon⟩)
  obtain ⟨first, hfirst⟩ := Option.ne_none_iff_exists'.mp (List.head?_eq_none_iff.not.mpr hne)
  simp [gather, absorb, List.filter_append, hfirst]

theorem gather_append_of_not_mem (h : branch.on ∉ branches.map on) :
    gather (branches ++ [branch]) branch.on = branch := by
  have hnil : branches.filter (·.on = branch.on) = [] := by
    rw [List.filter_eq_nil_iff]
    intro other ho hon
    exact h (List.mem_map.mpr ⟨other, ho, by simpa using hon⟩)
  obtain ⟨on, possible, fields, inner, spreads⟩ := branch
  have hspreads : spreads = [] := List.eq_nil_iff_forall_not_mem.mpr fun spread => spread.elim
  simp only at hnil
  simp [gather, List.filter_append, hnil, hspreads]

theorem mergeBranch_map {types : List String} (hnodup : types.Nodup) {f : String → LinkedSelection}
    (hon : ∀ type, (f type).on = type) :
    mergeBranch branch (types.map f) =
      if branch.on ∈ types then
        types.map fun type => if type = branch.on then (f type).absorb branch else f type
      else types.map f ++ [branch] := by
  induction types with
  | nil => rfl
  | cons first rest ih =>
      obtain ⟨hfirst, hrest⟩ := List.nodup_cons.mp hnodup
      rw [List.map_cons, mergeBranch, hon, ih hrest]
      by_cases hb : first = branch.on
      · subst hb
        have hsame : rest.map f = rest.map fun type =>
            if type = branch.on then (f type).absorb branch else f type := by
          apply List.map_congr_left
          intro type ht
          rw [if_neg]
          rintro rfl
          exact hfirst ht
        simp [hsame]
      · have hne : branch.on ≠ first := fun heq => hb heq.symm
        by_cases hmem : branch.on ∈ rest <;> simp [hb, hne, hmem]

theorem mergeSiblings_concat (branches : List LinkedSelection) (branch : LinkedSelection) :
    mergeSiblings (branches ++ [branch]) = mergeBranch branch (mergeSiblings branches) :=
  List.foldl_append

/-- Merging is gathering the branches of each type. -/
theorem mergeSiblings_eq_map (branches : List LinkedSelection) :
    mergeSiblings branches = (branches.map on).eraseDups.map (gather branches) := by
  induction branches using List.reverseRecOn with
  | nil => rfl
  | append_singleton branches branch ih =>
      rw [mergeSiblings_concat, ih, mergeBranch_map (nodup_eraseDups _) (fun _ => rfl),
        List.map_append, List.map_singleton, eraseDups_concat]
      simp only [List.mem_eraseDups]
      split
      · next hmem =>
        apply List.map_congr_left
        intro type _
        split
        · next heq =>
          subst heq
          rw [gather_append_of_mem hmem]
        · next hne => rw [gather_append_of_ne fun heq => hne heq.symm]
      · next hmem =>
        rw [List.map_append, List.map_singleton, gather_append_of_not_mem hmem]
        congr 1
        apply List.map_congr_left
        intro type ht
        rw [gather_append_of_ne]
        rintro rfl
        exact hmem (List.mem_eraseDups.mp ht)

theorem map_on_mergeSiblings (branches : List LinkedSelection) :
    (mergeSiblings branches).map on = (branches.map on).eraseDups := by
  rw [mergeSiblings_eq_map, List.map_map]
  exact List.map_id' _

end QueryShape.Selection
