import QueryShape.Linked

/-!
# The linker, part by part

Linking a list of parts is linking each part, with the results put together. The fragments that a
selection spreads are likewise those that its parts spread.
-/

namespace QueryShape

def together {α : Type} (reached : List (α × Nat)) : List α × Nat :=
  (reached.map Prod.fst, (reached.map Prod.snd).foldr max 0)

namespace Selection

section

variable (maxDepth : Nat) (splice : Splice) (depth : Nat)

theorem linkAt_eq (selection : Selection String) :
    selection.linkAt maxDepth splice depth = (do
      checkDepth maxDepth depth
      let fields ← linkFields maxDepth splice (depth + 1) selection.fields
      let branches ← linkBranches maxDepth splice (depth + 1) selection.branches
      let spliced ← spliceAll maxDepth splice depth selection.spreads
      return (⟨selection.on, selection.possible, fields.1, branches.1 ++ spliced.1, []⟩,
        max depth (max fields.2 (max branches.2 spliced.2)))) := by
  obtain ⟨on, possible, fields, branches, spreads⟩ := selection
  rw [linkAt]

def linkField (field : Field (Selection String)) : Typing (Field LinkedSelection × Nat) := do
  let (core, inCore) ← linkCore maxDepth splice depth field.type.core
  return (⟨field.key, field.type.wrapping, core⟩, inCore)

def spliceOne (name : String) : Typing (LinkedSelection × Nat) := do
  let fragment ← splice name
  checkDepth maxDepth (depth + fragment.height)
  return (fragment.selection, depth + fragment.height)

theorem linkFields_eq_together (fields : List (Field (Selection String))) :
    linkFields maxDepth splice depth fields =
      together <$> fields.mapM (linkField maxDepth splice depth) := by
  induction fields with
  | nil => rfl
  | cons field rest ih =>
      simp only [linkFields, ih, List.mapM_cons, linkField, map_eq_pure_bind, bind_assoc, pure_bind]
      rfl

theorem linkBranches_eq_together (branches : List (Selection String)) :
    linkBranches maxDepth splice depth branches =
      together <$> branches.mapM (linkAt maxDepth splice depth) := by
  induction branches with
  | nil => rfl
  | cons branch rest ih =>
      simp only [linkBranches, ih, List.mapM_cons, map_eq_pure_bind, bind_assoc, pure_bind]
      rfl

theorem spliceAll_eq_together (names : List String) :
    spliceAll maxDepth splice depth names =
      together <$> names.mapM (spliceOne maxDepth splice depth) := by
  induction names with
  | nil => rfl
  | cons name rest ih =>
      simp only [spliceAll, ih, List.mapM_cons, spliceOne, map_eq_pure_bind, bind_assoc, pure_bind]
      rfl

end

/-! ### References -/

theorem fieldReferences_eq_flatMap {ρ : Type} (fields : List (Field (Selection ρ))) :
    fieldReferences fields =
      fields.flatMap fun field => (field.nested?.map references).getD [] := by
  induction fields with
  | nil => rfl
  | cons field rest ih =>
      obtain ⟨key, wrapping, core⟩ := field
      cases core <;> simp [fieldReferences, ih, Field.nested?]

theorem branchReferences_eq_flatMap {ρ : Type} (branches : List (Selection ρ)) :
    branchReferences branches = branches.flatMap references := by
  induction branches with
  | nil => rfl
  | cons branch rest ih => rw [branchReferences, ih, List.flatMap_cons]

theorem references_eq {ρ : Type} (selection : Selection ρ) :
    selection.references =
      (selection.fields.flatMap fun field => (field.nested?.map references).getD []) ++
        (selection.branches.flatMap references ++ selection.spreads) := by
  obtain ⟨on, possible, fields, branches, spreads⟩ := selection
  rw [references, fieldReferences_eq_flatMap, branchReferences_eq_flatMap]

end Selection
end QueryShape
