import Mathlib.Algebra.Order.Group.Multiset
import Mathlib.Tactic.Abel
import QueryShape.Flattened

/-!
# Fields reached under type conditions

Flattening moves fields between a selection and its branches. Under each set of type conditions it
keeps the fields that are selected, with their multiplicities.
-/

namespace QueryShape.Selection

mutual

/-- The fields that a selection selects where just the type conditions in `p` hold. -/
def reach (p : String → Prop) [DecidablePred p] :
    LinkedSelection → Multiset (Field LinkedSelection)
  | ⟨_, _, fields, branches, _⟩ => (fields : Multiset (Field LinkedSelection)) +
      reachBranches p branches

def reachBranches (p : String → Prop) [DecidablePred p] :
    List LinkedSelection → Multiset (Field LinkedSelection)
  | [] => 0
  | branch :: rest => (if p branch.on then branch.reach p else 0) + reachBranches p rest

end

section

variable (p : String → Prop) [DecidablePred p]

theorem reach_eq (selection : LinkedSelection) :
    selection.reach p = (selection.fields : Multiset (Field LinkedSelection)) +
      reachBranches p selection.branches := by
  obtain ⟨on, possible, fields, branches, spreads⟩ := selection
  rw [reach]

private theorem reachBranches_append (branches others : List LinkedSelection) :
    reachBranches p (branches ++ others) = reachBranches p branches + reachBranches p others := by
  induction branches with
  | nil => simp [reachBranches]
  | cons branch branches ih =>
      simp only [List.cons_append, reachBranches, ih]
      abel

private theorem reach_absorb (selection other : LinkedSelection) :
    (selection.absorb other).reach p = selection.reach p + other.reach p := by
  simp only [reach_eq, absorb, reachBranches_append, ← Multiset.coe_add]
  abel

private theorem reach_collapse (selection : LinkedSelection) (h : p selection.on) :
    selection.collapse.reach p = selection.reach p := by
  have (branches : List LinkedSelection) :
      ((branches.flatMap fun b => if b.on = selection.on then b.fields else [] :
          List (Field LinkedSelection)) : Multiset (Field LinkedSelection)) +
        reachBranches p
          (branches.flatMap fun b => if b.on = selection.on then b.branches else [b]) =
      reachBranches p branches := by
    induction branches with
    | nil => simp [reachBranches]
    | cons branch branches ih =>
        simp only [List.flatMap_cons, ← Multiset.coe_add, reachBranches_append]
        rw [reachBranches.eq_2, ← ih]
        by_cases hb : branch.on = selection.on
        · rw [if_pos hb, if_pos hb, if_pos (hb ▸ h), reach_eq]
          abel
        · simp only [if_neg hb, reachBranches, Multiset.coe_nil]
          abel
  rw [reach_eq, reach_eq p selection, ← this selection.branches]
  simp only [collapse, ← Multiset.coe_add]
  abel

private theorem reachBranches_mergeBranch (branch : LinkedSelection)
    (branches : List LinkedSelection) :
    reachBranches p (mergeBranch branch branches) =
      reachBranches p branches + if p branch.on then branch.reach p else 0 := by
  induction branches with
  | nil => simp [mergeBranch, reachBranches]
  | cons first rest ih =>
      rw [mergeBranch]
      by_cases hon : first.on = branch.on
      · have habsorb : (first.absorb branch).on = first.on := rfl
        rw [if_pos hon, reachBranches, reachBranches, reach_absorb, habsorb, ← hon]
        split <;> abel
      · simp only [if_neg hon, reachBranches, ih]
        abel

private theorem reachBranches_mergeSiblings (branches : List LinkedSelection) :
    reachBranches p (mergeSiblings branches) = reachBranches p branches := by
  have (branches merged : List LinkedSelection) :
      reachBranches p (branches.foldl (fun merged branch => mergeBranch branch merged) merged) =
        reachBranches p merged + reachBranches p branches := by
    induction branches generalizing merged with
    | nil => simp [reachBranches]
    | cons branch branches ih =>
        rw [List.foldl_cons, ih, reachBranches_mergeBranch, reachBranches.eq_2]
        abel
  simpa [mergeSiblings, reachBranches] using this branches []

private theorem reachBranches_map {f : LinkedSelection → LinkedSelection}
    {g : Field LinkedSelection → Field LinkedSelection} {branches : List LinkedSelection}
    (hon : ∀ branch, (f branch).on = branch.on)
    (h : ∀ branch ∈ branches, p branch.on → (f branch).reach p = (branch.reach p).map g) :
    reachBranches p (branches.map f) = (reachBranches p branches).map g := by
  induction branches with
  | nil => simp [reachBranches]
  | cons branch branches ih =>
      have ht := ih fun b hb => h b (List.mem_cons_of_mem _ hb)
      rw [List.map_cons, reachBranches, reachBranches, Multiset.map_add, ht, hon]
      by_cases hp : p branch.on
      · rw [if_pos hp, if_pos hp, h branch List.mem_cons_self hp]
      · rw [if_neg hp, if_neg hp, Multiset.map_zero]

/-- Below a flattened selection lie the fields that lay below it before, each with its own
selection flattened. -/
theorem reach_flatten (selection : LinkedSelection) (h : p selection.on) :
    selection.flatten.reach p = (selection.reach p).map (Field.mapNested flatten) := by
  induction selection using flatten.induct with
  | case1 selection _ ih =>
      rw [flatten_eq, reach_eq, reachBranches_map p flatten_on ih, reachBranches_mergeSiblings,
        ← Multiset.map_coe, ← Multiset.map_add, ← reach_eq, reach_collapse p selection h]

/-- Flattening loses, invents and repeats no field, and it moves none under another type condition:
under each set of type conditions that holds of the selection's own type, the same fields are
selected. The fields' own selections are flattened, to which the same applies. -/
theorem flatten_keeps_fields (selection : LinkedSelection) (h : p selection.on) :
    selection.flatten.reach p = (selection.reach p).map (Field.mapNested flatten) ∧
      selection.flatten.on = selection.on ∧
      selection.flatten.possible = selection.possible ∧
      ∀ operation : Operation LinkedSelection, operation.selection = selection →
        operation.flatten.selection = selection.flatten ∧
          operation.flatten.kind = operation.kind ∧
          operation.flatten.name? = operation.name? ∧
          operation.flatten.vars = operation.vars := by
  refine ⟨reach_flatten p selection h, flatten_on selection, flatten_possible selection, ?_⟩
  rintro operation rfl
  exact ⟨rfl, rfl, rfl, rfl⟩

end

/-- A character by `id`, again by `name` under its own type, there with a droid inside, and then a
droid once more. -/
def characterWithDroids : LinkedSelection :=
  let field (key : String) : Field LinkedSelection := ⟨key, [], .scalar "String"⟩
  let droid (key : String) : LinkedSelection := ⟨"Droid", ["Droid"], [field key], [], []⟩
  let again : LinkedSelection :=
    ⟨"Character", ["Human", "Droid"], [field "name"], [droid "primaryFunction"], []⟩
  ⟨"Character", ["Human", "Droid"], [field "id"], [again, droid "height"], []⟩

theorem flatten_keeps_fields_characterWithDroids :
    characterWithDroids.on ∈ ["Character", "Droid"] ∧
      (characterWithDroids.flatten.reach (· ∈ ["Character", "Droid"])).map Field.key =
        {"name", "primaryFunction", "id", "height"} := by
  have hon : characterWithDroids.on ∈ ["Character", "Droid"] := by decide
  refine ⟨hon, ?_⟩
  rw [(flatten_keeps_fields (· ∈ ["Character", "Droid"]) characterWithDroids hon).1]
  simp [characterWithDroids, reach, reachBranches, Field.mapNested]

end QueryShape.Selection
