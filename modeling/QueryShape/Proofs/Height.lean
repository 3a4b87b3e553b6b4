import QueryShape.Proofs.Everywhere
import QueryShape.Proofs.SelectionShape

/-!
# The height of a selection

A selection is as high as its selection sets lie inside one another. Flattening moves parts of a
selection up and never down, so no selection grows, and typing accepts every selection that is no
higher than the cap.
-/

namespace QueryShape

namespace Selection

variable {ρ : Type}

mutual

/-- One level for the selection set itself, on top of those of the tallest one inside. -/
def height : Selection ρ → Nat
  | ⟨_, _, fields, branches, _⟩ => 1 + max (tallestField fields) (tallestBranch branches)

def tallestField : List (Field (Selection ρ)) → Nat
  | [] => 0
  | ⟨_, _, core⟩ :: rest => max (tallestCore core) (tallestField rest)

def tallestCore : OutputCore (Selection ρ) → Nat
  | .scalar _ | .enum _ | .typename => 0
  | .selection nested => nested.height

def tallestBranch : List (Selection ρ) → Nat
  | [] => 0
  | branch :: rest => max branch.height (tallestBranch rest)

end

/-! ### Heights of the selections inside -/

theorem tallestField_le_iff {fields : List (Field (Selection ρ))} {n : Nat} :
    tallestField fields ≤ n ↔
      ∀ nested ∈ fields.filterMap Field.nested?, nested.height ≤ n := by
  induction fields with
  | nil => simp [tallestField]
  | cons field rest ih =>
      obtain ⟨key, wrapping, core⟩ := field
      rw [tallestField, Nat.max_le, ih]
      cases core <;> simp [tallestCore, Field.nested?]

theorem tallestBranch_le_iff {branches : List (Selection ρ)} {n : Nat} :
    tallestBranch branches ≤ n ↔ ∀ branch ∈ branches, branch.height ≤ n := by
  induction branches with
  | nil => simp [tallestBranch]
  | cons branch rest ih => rw [tallestBranch, Nat.max_le, ih, List.forall_mem_cons]

theorem height_pos (selection : Selection ρ) : 0 < selection.height := by
  obtain ⟨on, possible, fields, branches, spreads⟩ := selection
  rw [height]
  omega

theorem height_le_iff {selection : Selection ρ} {n : Nat} :
    selection.height ≤ n ↔ 0 < n ∧ ∀ child ∈ selection.children, child.height < n := by
  obtain ⟨on, possible, fields, branches, spreads⟩ := selection
  cases n with
  | zero =>
      have := height_pos ⟨on, possible, fields, branches, spreads⟩
      omega
  | succ n =>
      have hparts : height ⟨on, possible, fields, branches, spreads⟩ ≤ n + 1 ↔
          tallestField fields ≤ n ∧ tallestBranch branches ≤ n := by
        rw [height]
        omega
      rw [hparts, tallestField_le_iff, tallestBranch_le_iff, children, List.forall_mem_append]
      simp only [Nat.lt_succ_iff, Nat.zero_le, true_and]

theorem height_lt_of_mem_children {selection child : Selection ρ} (h : child ∈ selection.children) :
    child.height < selection.height :=
  (height_le_iff.mp (Nat.le_refl selection.height)).2 child h

theorem mem_children_iff {selection child : Selection ρ} : child ∈ selection.children ↔
    (∃ field ∈ selection.fields, field.nested? = some child) ∨ child ∈ selection.branches := by
  rw [children, List.mem_append, List.mem_filterMap]

/-! ### The depth that is reached -/

mutual

theorem deepest_succ (depth : Nat) (selection : Selection ρ) :
    selection.deepest (depth + 1) = depth + selection.height := by
  match selection with
  | ⟨_, _, fields, branches, _⟩ =>
      have hfields := max_deepestField (depth + 1) fields
      have hbranches := max_deepestBranch (depth + 1) branches
      rw [deepest, height]
      omega

theorem max_deepestField (depth : Nat) (fields : List (Field (Selection ρ))) :
    max depth (deepestField (depth + 1) fields) = depth + tallestField fields := by
  match fields with
  | [] =>
      rw [deepestField, tallestField]
      omega
  | ⟨_, _, core⟩ :: rest =>
      have hcore := max_deepestCore depth core
      have hrest := max_deepestField depth rest
      rw [deepestField, tallestField]
      omega

theorem max_deepestCore (depth : Nat) (core : OutputCore (Selection ρ)) :
    max depth (deepestCore (depth + 1) core) = depth + tallestCore core := by
  match core with
  | .scalar _ | .enum _ | .typename =>
      rw [deepestCore, tallestCore]
      omega
  | .selection nested =>
      have hnested := deepest_succ depth nested
      rw [deepestCore, tallestCore]
      omega

theorem max_deepestBranch (depth : Nat) (branches : List (Selection ρ)) :
    max depth (deepestBranch (depth + 1) branches) = depth + tallestBranch branches := by
  match branches with
  | [] =>
      rw [deepestBranch, tallestBranch]
      omega
  | branch :: rest =>
      have hbranch := deepest_succ depth branch
      have hrest := max_deepestBranch depth rest
      rw [deepestBranch, tallestBranch]
      omega

end

theorem deepest_one (selection : Selection ρ) : selection.deepest 1 = selection.height := by
  rw [deepest_succ, Nat.zero_add]

/-! ### Flattening -/

theorem height_absorb_le (selection other : LinkedSelection) :
    (selection.absorb other).height ≤ max selection.height other.height := by
  have hpos := selection.height_pos
  refine height_le_iff.mpr ⟨by omega, fun child hc => ?_⟩
  have hside : child ∈ selection.children ∨ child ∈ other.children := by
    simp only [mem_children_iff, absorb, List.mem_append] at hc ⊢
    rcases hc with ⟨field, hf | hf, hn⟩ | hb | hb
    · exact .inl (.inl ⟨field, hf, hn⟩)
    · exact .inr (.inl ⟨field, hf, hn⟩)
    · exact .inl (.inr hb)
    · exact .inr (.inr hb)
  rcases hside with hs | ho
  · have := height_lt_of_mem_children hs
    omega
  · have := height_lt_of_mem_children ho
    omega

theorem height_collapse_le (selection : LinkedSelection) :
    selection.collapse.height ≤ selection.height := by
  refine height_le_iff.mpr ⟨selection.height_pos, fun child hc => ?_⟩
  have hplace : child ∈ selection.children ∨
      ∃ branch ∈ selection.branches, child ∈ branch.children := by
    simp only [mem_children_iff, collapse, List.mem_append, List.mem_flatMap] at hc ⊢
    rcases hc with ⟨field, hf | ⟨branch, hb, hf⟩, hn⟩ | ⟨branch, hb, hc⟩
    · exact .inl (.inl ⟨field, hf, hn⟩)
    · split at hf
      · exact .inr ⟨branch, hb, .inl ⟨field, hf, hn⟩⟩
      · cases hf
    · split at hc
      · exact .inr ⟨branch, hb, .inr hc⟩
      · exact .inl (.inr (List.mem_singleton.mp hc ▸ hb))
  rcases hplace with hc | ⟨branch, hb, hc⟩
  · exact height_lt_of_mem_children hc
  · exact Nat.lt_trans (height_lt_of_mem_children hc)
      (height_lt_of_mem_children (mem_children_iff.mpr (.inr hb)))

theorem height_flatten_le (selection : LinkedSelection) :
    selection.flatten.height ≤ selection.height := by
  induction selection using flatten.induct with
  | case1 selection ihNested ihBranch =>
      refine Nat.le_trans ?_ (height_collapse_le selection)
      have hmerged : ∀ branch ∈ mergeSiblings selection.collapse.branches,
          branch.height < selection.collapse.height := by
        refine forall_mem_mergeSiblings (fun first other _ hf ho => ?_) fun branch hb =>
          height_lt_of_mem_children (mem_children_iff.mpr (.inr hb))
        have := height_absorb_le first other
        omega
      refine height_le_iff.mpr ⟨selection.collapse.height_pos, fun child hc => ?_⟩
      rw [flatten_eq, mem_children_iff] at hc
      simp only [List.mem_map] at hc
      rcases hc with ⟨_, ⟨field, hf, rfl⟩, hnested⟩ | ⟨branch, hb, rfl⟩
      · rw [Field.nested?_mapNested, Option.map_eq_some_iff] at hnested
        obtain ⟨nested, hn, rfl⟩ := hnested
        exact Nat.lt_of_le_of_lt (ihNested field hf nested hn)
          (height_lt_of_mem_children (mem_children_iff.mpr (.inl ⟨field, hf, hn⟩)))
      · exact Nat.lt_of_le_of_lt (ihBranch branch hb) (hmerged branch hb)

end Selection

/-! ### Typing -/

open Outcome in
theorem Operation.exists_signature {options : Options} {operation : Operation LinkedSelection}
    (h : operation.selection.height ≤ options.maxDepth) :
    ∃ signature, operation.signature options = .ok signature := by
  unfold Operation.signature
  rw [Selection.shapeAt_eq, Selection.deepest_one, checkDepth_of_le h]
  exact ⟨_, rfl⟩

end QueryShape
