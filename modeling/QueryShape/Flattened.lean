import QueryShape.Selection

/-!
# Flattening

Branches on the selection's own type are folded into it, the others are merged type by type at the
place of the first. This is done at every level, from the outside in.
-/

namespace QueryShape

namespace Field

variable {σ τ : Type}

def mapNested (f : σ → τ) (field : Field σ) : Field τ :=
  ⟨field.key, field.type.wrapping, match field.type.core with
    | .scalar name => .scalar name
    | .enum values => .enum values
    | .typename => .typename
    | .selection nested => .selection (f nested)⟩

/-- Like `mapNested`, for a function that needs to know where its argument comes from. -/
def mapNestedIn (field : Field σ) (f : (nested : σ) → field.nested? = some nested → τ) : Field τ :=
  ⟨field.key, field.type.wrapping, match h : field.type.core with
    | .scalar name => .scalar name
    | .enum values => .enum values
    | .typename => .typename
    | .selection nested => .selection (f nested (by simp [nested?, h]))⟩

theorem mapNestedIn_eq (field : Field σ) (f : σ → τ) :
    (field.mapNestedIn fun nested _ => f nested) = field.mapNested f := by
  obtain ⟨key, wrapping, core⟩ := field
  cases core <;> rfl

@[simp] theorem nested?_mapNested (f : σ → τ) (field : Field σ) :
    (field.mapNested f).nested? = field.nested?.map f := by
  obtain ⟨key, wrapping, core⟩ := field
  cases core <;> rfl

theorem mapNested_mapNested {υ : Type} (f : σ → τ) (g : τ → υ) (field : Field σ) :
    (field.mapNested f).mapNested g = field.mapNested (g ∘ f) := by
  obtain ⟨key, wrapping, core⟩ := field
  cases core <;> rfl

end Field

namespace Selection

variable {ρ : Type}

theorem countFields_append (fields others : List (Field (Selection ρ))) :
    countFields (fields ++ others) = countFields fields + countFields others := by
  induction fields with
  | nil => simp [countFields]
  | cons field fields ih =>
      obtain ⟨key, wrapping, core⟩ := field
      cases core <;> simp [countFields, ih, Nat.add_assoc]

theorem countBranches_append (branches others : List (Selection ρ)) :
    countBranches (branches ++ others) = countBranches branches + countBranches others := by
  induction branches with
  | nil => simp [countBranches]
  | cons branch branches ih => simp [countBranches, ih, Nat.add_assoc]

theorem count_eq (selection : Selection ρ) :
    selection.count = 1 + (countFields selection.fields + countBranches selection.branches) := by
  obtain ⟨on, possible, fields, branches, spreads⟩ := selection
  rw [count]

theorem count_le_countFields {fields : List (Field (Selection ρ))} {field : Field (Selection ρ)}
    {nested : Selection ρ} (hf : field ∈ fields) (hn : field.nested? = some nested) :
    nested.count ≤ countFields fields := by
  induction fields with
  | nil => simp at hf
  | cons first fields ih =>
      obtain ⟨key, wrapping, core⟩ := first
      rcases List.mem_cons.mp hf with rfl | hf
      · cases core <;> simp_all [Field.nested?, countFields]
      · have := ih hf
        cases core <;> simp only [countFields] <;> omega

theorem count_le_countBranches {branches : List (Selection ρ)} {branch : Selection ρ}
    (hb : branch ∈ branches) : branch.count ≤ countBranches branches := by
  induction branches with
  | nil => simp at hb
  | cons first branches ih =>
      rw [countBranches]
      rcases List.mem_cons.mp hb with rfl | hb
      · omega
      · have := ih hb
        omega

/-- Appends the fields and branches of `other`, keeping the type of the selection. -/
def absorb (selection other : LinkedSelection) : LinkedSelection :=
  { selection with
    fields := selection.fields ++ other.fields
    branches := selection.branches ++ other.branches }

theorem count_absorb (selection other : LinkedSelection) :
    (selection.absorb other).count + 1 = selection.count + other.count := by
  simp only [count_eq, absorb, countFields_append, countBranches_append]
  omega

/-- Folds branches of the selection's own type into the selection. The branches of a folded branch
take its place as they are. -/
def collapse (selection : LinkedSelection) : LinkedSelection :=
  { selection with
    fields := selection.fields ++
      selection.branches.flatMap fun branch =>
        if branch.on = selection.on then branch.fields else []
    branches := selection.branches.flatMap fun branch =>
      if branch.on = selection.on then branch.branches else [branch] }

theorem count_collapse (selection : LinkedSelection) :
    selection.collapse.count + selection.branches.countP (·.on = selection.on) =
      selection.count := by
  have (branches : List (Selection Empty)) :
      countFields (branches.flatMap fun b => if b.on = selection.on then b.fields else []) +
        countBranches (branches.flatMap fun b => if b.on = selection.on then b.branches else [b]) +
        branches.countP (·.on = selection.on) = countBranches branches := by
    induction branches with
    | nil => simp [countFields, countBranches]
    | cons branch branches ih =>
        have := count_eq branch
        simp only [List.flatMap_cons, countFields_append, countBranches_append, List.countP_cons,
          decide_eq_true_eq]
        rw [countBranches.eq_2]
        split
        · omega
        · simp only [countFields, countBranches]
          omega
  have := this selection.branches
  rw [count_eq, count_eq selection]
  simp only [collapse, countFields_append]
  omega

theorem count_collapse_le (selection : LinkedSelection) :
    selection.collapse.count ≤ selection.count :=
  Nat.le.intro (count_collapse selection)

/-- Adds a branch to branches on distinct types: to the one of its type, or else at the end. -/
def mergeBranch (branch : LinkedSelection) : List LinkedSelection → List LinkedSelection
  | [] => [branch]
  | first :: rest =>
      if first.on = branch.on then first.absorb branch :: rest else first :: mergeBranch branch rest

/-- Merges the branches on one type into one branch, at the place of the first of them. -/
def mergeSiblings (branches : List LinkedSelection) : List LinkedSelection :=
  branches.foldl (fun merged branch => mergeBranch branch merged) []

theorem countBranches_mergeBranch (branch : LinkedSelection) (branches : List LinkedSelection) :
    countBranches (mergeBranch branch branches) + (if branch.on ∈ branches.map on then 1 else 0) =
      countBranches branches + branch.count := by
  induction branches with
  | nil => simp [mergeBranch, countBranches]
  | cons first rest ih =>
      rw [mergeBranch]
      by_cases hon : first.on = branch.on
      · have := count_absorb first branch
        simp only [countBranches, List.map_cons, List.mem_cons, hon, true_or, if_true]
        omega
      · simp only [if_neg hon, countBranches, List.map_cons, List.mem_cons, Ne.symm hon, false_or]
        omega

theorem countBranches_mergeBranch_le (branch : LinkedSelection) (branches : List LinkedSelection) :
    countBranches (mergeBranch branch branches) ≤ countBranches branches + branch.count :=
  Nat.le.intro (countBranches_mergeBranch branch branches)

theorem countBranches_mergeSiblings_le (branches : List LinkedSelection) :
    countBranches (mergeSiblings branches) ≤ countBranches branches := by
  have (branches merged : List LinkedSelection) :
      countBranches (branches.foldl (fun merged branch => mergeBranch branch merged) merged) ≤
        countBranches merged + countBranches branches := by
    induction branches generalizing merged with
    | nil => simp [countBranches]
    | cons branch branches ih =>
        have h₁ := ih (mergeBranch branch merged)
        have h₂ := countBranches_mergeBranch_le branch merged
        simp only [List.foldl_cons, countBranches]
        omega
  have := this branches []
  simpa [mergeSiblings, countBranches] using this

def flatten (selection : LinkedSelection) : LinkedSelection :=
  { on := selection.on
    possible := selection.possible
    fields := selection.collapse.fields.attach.map fun ⟨field, _⟩ =>
      field.mapNestedIn fun nested _ => nested.flatten
    branches := (mergeSiblings selection.collapse.branches).attach.map fun ⟨branch, _⟩ =>
      branch.flatten
    spreads := [] }
termination_by selection.count
decreasing_by
  all_goals
    have hc := count_collapse_le selection
    rw [count_eq selection.collapse] at hc
  · have := count_le_countFields ‹_ ∈ _› ‹_›
    omega
  · have := count_le_countBranches ‹_ ∈ mergeSiblings _›
    have := countBranches_mergeSiblings_le selection.collapse.branches
    omega

theorem flatten_eq (selection : LinkedSelection) :
    selection.flatten =
      ⟨selection.on, selection.possible, selection.collapse.fields.map (Field.mapNested flatten),
        (mergeSiblings selection.collapse.branches).map flatten, []⟩ := by
  rw [flatten]
  simp only [Field.mapNestedIn_eq, List.map_subtype, List.unattach_attach]

@[simp] theorem flatten_on (selection : LinkedSelection) : selection.flatten.on = selection.on := by
  rw [flatten_eq]

@[simp] theorem flatten_possible (selection : LinkedSelection) :
    selection.flatten.possible = selection.possible := by
  rw [flatten_eq]

end Selection

def Operation.flatten (operation : Operation LinkedSelection) : Operation LinkedSelection :=
  { operation with selection := operation.selection.flatten }

end QueryShape
