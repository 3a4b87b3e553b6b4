import Mathlib.Algebra.Group.Nat.Defs
import Mathlib.Logic.Function.Iterate
import QueryShape.Proofs.Everywhere
import QueryShape.Proofs.Merging

/-!
# Branches on a selection's own type

Flattening folds the branches on a selection's own type, but takes over those of a folded one as
they are. So of a chain of such branches every second one is left.
-/

namespace QueryShape

namespace Selection

/-- A selection has a branch on its own type, which has one again, and so on down to `length`. -/
inductive OwnChain : Nat → LinkedSelection → Prop where
  | start (selection : LinkedSelection) : OwnChain 0 selection
  | step {length : Nat} {selection branch : LinkedSelection} (hb : branch ∈ selection.branches)
      (hon : branch.on = selection.on) (h : OwnChain length branch) :
      OwnChain (length + 1) selection

/-- No selection set, at any depth, has a branch on its own type. -/
def Folded (selection : LinkedSelection) : Prop :=
  ¬ selection.Somewhere fun inner => ∃ branch ∈ inner.branches, branch.on = inner.on

variable {length : Nat} {selection branch : LinkedSelection} {branches : List LinkedSelection}
  {type : String}

theorem ownChain_succ_iff : OwnChain (length + 1) selection ↔
    ∃ branch ∈ selection.branches, branch.on = selection.on ∧ OwnChain length branch := by
  constructor
  · intro h
    cases h with
    | step hb hon h => exact ⟨_, hb, hon, h⟩
  · rintro ⟨branch, hb, hon, h⟩
    exact .step hb hon h

theorem OwnChain.pred (h : OwnChain (length + 1) selection) : OwnChain length selection := by
  induction length generalizing selection with
  | zero => exact .start selection
  | succ length ih =>
      obtain ⟨branch, hb, hon, h⟩ := ownChain_succ_iff.mp h
      exact .step hb hon (ih h)

theorem ownChain_one_iff :
    OwnChain 1 selection ↔ ∃ branch ∈ selection.branches, branch.on = selection.on := by
  rw [ownChain_succ_iff]
  simp only [OwnChain.start, and_true]

theorem folded_iff : selection.Folded ↔ ¬ selection.Somewhere (OwnChain 1) := by
  have hone : OwnChain 1 = fun inner => ∃ branch ∈ inner.branches, branch.on = inner.on := by
    funext inner
    exact propext ownChain_one_iff
  rw [hone, Folded]

/-! ### Merging -/

theorem mem_mergeSiblings_iff {merged : LinkedSelection} :
    merged ∈ mergeSiblings branches ↔ ∃ branch ∈ branches, gather branches branch.on = merged := by
  simp [mergeSiblings_eq_map]

theorem mem_fields_gather_iff {field : Field LinkedSelection} :
    field ∈ (gather branches type).fields ↔
      ∃ branch ∈ branches, branch.on = type ∧ field ∈ branch.fields := by
  simp [gather, and_assoc]

theorem mem_branches_gather_iff {inner : LinkedSelection} :
    inner ∈ (gather branches type).branches ↔
      ∃ branch ∈ branches, branch.on = type ∧ inner ∈ branch.branches := by
  simp [gather, and_assoc]

theorem ownChain_gather_iff (hb : branch ∈ branches) :
    OwnChain length (gather branches branch.on) ↔
      ∃ other ∈ branches, other.on = branch.on ∧ OwnChain length other := by
  have hon : (gather branches branch.on).on = branch.on := rfl
  cases length with
  | zero =>
      constructor
      · intro _
        exact ⟨branch, hb, rfl, .start branch⟩
      · intro _
        exact .start _
  | succ length =>
      constructor
      · intro h
        obtain ⟨inner, hi, hion, h⟩ := ownChain_succ_iff.mp h
        obtain ⟨other, ho, hoon, hi⟩ := mem_branches_gather_iff.mp hi
        exact ⟨other, ho, hoon, .step hi (by rw [hion, hon, hoon]) h⟩
      · rintro ⟨other, ho, hoon, h⟩
        obtain ⟨inner, hi, hion, h⟩ := ownChain_succ_iff.mp h
        have hmem := mem_branches_gather_iff.mpr ⟨other, ho, hoon, hi⟩
        exact .step hmem (by rw [hion, hoon]; rfl) h

/-- Merging moves a chain on a type to another branch on this type, but makes and breaks none. -/
theorem exists_mergeSiblings_ownChain_iff :
    (∃ merged ∈ mergeSiblings branches, merged.on = type ∧ OwnChain length merged) ↔
      ∃ branch ∈ branches, branch.on = type ∧ OwnChain length branch := by
  constructor
  · rintro ⟨merged, hm, hon, h⟩
    obtain ⟨branch, hb, rfl⟩ := mem_mergeSiblings_iff.mp hm
    obtain ⟨other, ho, hoon, h⟩ := (ownChain_gather_iff hb).mp h
    exact ⟨other, ho, hoon.trans hon, h⟩
  · rintro ⟨branch, hb, hon, h⟩
    have hm := mem_mergeSiblings_iff.mpr ⟨branch, hb, rfl⟩
    exact ⟨_, hm, hon, (ownChain_gather_iff hb).mpr ⟨branch, hb, rfl, h⟩⟩

theorem exists_mergeSiblings_somewhere_iff :
    (∃ merged ∈ mergeSiblings branches, merged.Somewhere (OwnChain length)) ↔
      ∃ branch ∈ branches, branch.Somewhere (OwnChain length) := by
  constructor
  · rintro ⟨merged, hm, h⟩
    obtain ⟨branch, hb, rfl⟩ := mem_mergeSiblings_iff.mp hm
    rcases somewhere_iff.mp h with h | ⟨field, hf, nested, hn, h⟩ | ⟨inner, hi, h⟩
    · obtain ⟨other, ho, -, h⟩ := (ownChain_gather_iff hb).mp h
      exact ⟨other, ho, .here h⟩
    · obtain ⟨other, ho, -, hf⟩ := mem_fields_gather_iff.mp hf
      exact ⟨other, ho, .inField hf hn h⟩
    · obtain ⟨other, ho, -, hi⟩ := mem_branches_gather_iff.mp hi
      exact ⟨other, ho, .inBranch hi h⟩
  · rintro ⟨branch, hb, h⟩
    refine ⟨gather branches branch.on, mem_mergeSiblings_iff.mpr ⟨branch, hb, rfl⟩, ?_⟩
    rcases somewhere_iff.mp h with h | ⟨field, hf, nested, hn, h⟩ | ⟨inner, hi, h⟩
    · exact .here ((ownChain_gather_iff hb).mpr ⟨branch, hb, rfl, h⟩)
    · exact .inField (mem_fields_gather_iff.mpr ⟨branch, hb, rfl, hf⟩) hn h
    · exact .inBranch (mem_branches_gather_iff.mpr ⟨branch, hb, rfl, hi⟩) h

/-! ### Folding -/

theorem mem_fields_collapse_iff {field : Field LinkedSelection} :
    field ∈ selection.collapse.fields ↔ field ∈ selection.fields ∨
      ∃ branch ∈ selection.branches, branch.on = selection.on ∧ field ∈ branch.fields := by
  simp only [collapse, List.mem_append, List.mem_flatMap]
  apply or_congr_right
  apply exists_congr
  intro branch
  by_cases hon : branch.on = selection.on <;> simp [hon]

theorem mem_branches_collapse_iff {inner : LinkedSelection} :
    inner ∈ selection.collapse.branches ↔
      (inner ∈ selection.branches ∧ inner.on ≠ selection.on) ∨
        ∃ branch ∈ selection.branches, branch.on = selection.on ∧ inner ∈ branch.branches := by
  simp only [collapse, List.mem_flatMap]
  constructor
  · rintro ⟨branch, hb, hi⟩
    by_cases hon : branch.on = selection.on
    · rw [if_pos hon] at hi
      exact .inr ⟨branch, hb, hon, hi⟩
    · rw [if_neg hon, List.mem_singleton] at hi
      rw [hi]
      exact .inl ⟨hb, hon⟩
  · rintro (⟨hi, hon⟩ | ⟨branch, hb, hon, hi⟩)
    · exact ⟨inner, hi, by simp [hon]⟩
    · exact ⟨branch, hb, by simpa [hon] using hi⟩

theorem exists_collapse_ownChain_iff :
    (∃ branch ∈ selection.collapse.branches, branch.on = selection.on ∧ OwnChain length branch) ↔
      OwnChain (length + 2) selection := by
  rw [ownChain_succ_iff]
  constructor
  · rintro ⟨inner, hi, hion, h⟩
    rcases mem_branches_collapse_iff.mp hi with ⟨-, hne⟩ | ⟨branch, hb, hon, hi⟩
    · exact absurd hion hne
    · exact ⟨branch, hb, hon, .step hi (by rw [hion, hon]) h⟩
  · rintro ⟨branch, hb, hon, h⟩
    obtain ⟨inner, hi, hion, h⟩ := ownChain_succ_iff.mp h
    exact ⟨inner, mem_branches_collapse_iff.mpr (.inr ⟨branch, hb, hon, hi⟩), hion.trans hon, h⟩

theorem somewhere_collapse_iff :
    (OwnChain length selection ∨
      (∃ field ∈ selection.collapse.fields, ∃ nested, field.nested? = some nested ∧
        nested.Somewhere (OwnChain length)) ∨
      ∃ branch ∈ selection.collapse.branches, branch.Somewhere (OwnChain length)) ↔
      selection.Somewhere (OwnChain length) := by
  constructor
  · rintro (h | ⟨field, hf, nested, hn, h⟩ | ⟨inner, hi, h⟩)
    · exact .here h
    · rcases mem_fields_collapse_iff.mp hf with hf | ⟨branch, hb, -, hf⟩
      · exact .inField hf hn h
      · exact .inBranch hb (.inField hf hn h)
    · rcases mem_branches_collapse_iff.mp hi with ⟨hi, -⟩ | ⟨branch, hb, -, hi⟩
      · exact .inBranch hi h
      · exact .inBranch hb (.inBranch hi h)
  · intro h
    rcases somewhere_iff.mp h with h | ⟨field, hf, nested, hn, h⟩ | ⟨branch, hb, h⟩
    · exact .inl h
    · exact .inr (.inl ⟨field, mem_fields_collapse_iff.mpr (.inl hf), nested, hn, h⟩)
    · by_cases hon : branch.on = selection.on
      · rcases somewhere_iff.mp h with h | ⟨field, hf, nested, hn, h⟩ | ⟨inner, hi, h⟩
        · exact .inl (OwnChain.step hb hon h).pred
        · have hmem := mem_fields_collapse_iff.mpr (.inr ⟨branch, hb, hon, hf⟩)
          exact .inr (.inl ⟨field, hmem, nested, hn, h⟩)
        · have hmem := mem_branches_collapse_iff.mpr (.inr ⟨branch, hb, hon, hi⟩)
          exact .inr (.inr ⟨inner, hmem, h⟩)
      · have hmem := mem_branches_collapse_iff.mpr (.inl ⟨hb, hon⟩)
        exact .inr (.inr ⟨branch, hmem, h⟩)

/-! ### Flattening -/

theorem mem_branches_flatten_iff :
    branch ∈ selection.flatten.branches ↔
      ∃ merged ∈ mergeSiblings selection.collapse.branches, merged.flatten = branch := by
  rw [flatten_eq, List.mem_map]

theorem somewhere_flatten_iff {r : LinkedSelection → Prop} :
    selection.flatten.Somewhere r ↔ r selection.flatten ∨
      (∃ field ∈ selection.collapse.fields, ∃ nested, field.nested? = some nested ∧
        nested.flatten.Somewhere r) ∨
      ∃ merged ∈ mergeSiblings selection.collapse.branches, merged.flatten.Somewhere r := by
  have hfields : selection.flatten.fields =
      selection.collapse.fields.map (Field.mapNested flatten) := by
    rw [flatten_eq]
  rw [somewhere_iff, hfields]
  simp only [mem_branches_flatten_iff, List.mem_map, exists_exists_and_eq_and,
    Field.nested?_mapNested, Option.map_eq_some_iff]

/-- Flattening halves the chains that begin at the selection. -/
theorem ownChain_flatten_iff :
    OwnChain length selection.flatten ↔ OwnChain (2 * length) selection := by
  induction selection using flatten.induct generalizing length with
  | case1 selection _ ihMerged =>
      cases length with
      | zero => simp [OwnChain.start]
      | succ length =>
          calc OwnChain (length + 1) selection.flatten
            _ ↔ ∃ merged ∈ mergeSiblings selection.collapse.branches,
                merged.on = selection.on ∧ OwnChain length merged.flatten := by
              simp only [ownChain_succ_iff, mem_branches_flatten_iff, exists_exists_and_eq_and,
                flatten_on]
            _ ↔ ∃ merged ∈ mergeSiblings selection.collapse.branches,
                merged.on = selection.on ∧ OwnChain (2 * length) merged := by
              apply exists_congr
              intro merged
              apply and_congr_right
              intro hm
              rw [ihMerged merged hm]
            _ ↔ ∃ branch ∈ selection.collapse.branches,
                branch.on = selection.on ∧ OwnChain (2 * length) branch :=
              exists_mergeSiblings_ownChain_iff
            _ ↔ OwnChain (2 * (length + 1)) selection := exists_collapse_ownChain_iff

/-- Flattening halves the chains everywhere in a selection. -/
theorem somewhere_ownChain_flatten_iff :
    selection.flatten.Somewhere (OwnChain length) ↔
      selection.Somewhere (OwnChain (2 * length)) := by
  induction selection using flatten.induct with
  | case1 selection ihField ihMerged =>
      rw [somewhere_flatten_iff, ← somewhere_collapse_iff, ownChain_flatten_iff,
        ← exists_mergeSiblings_somewhere_iff]
      apply or_congr_right
      apply or_congr
      · apply exists_congr
        intro field
        apply and_congr_right
        intro hf
        apply exists_congr
        intro nested
        apply and_congr_right
        intro hn
        exact ihField field hf nested hn
      · apply exists_congr
        intro merged
        apply and_congr_right
        intro hm
        exact ihMerged merged hm

theorem somewhere_ownChain_iterate_flatten_iff (times : Nat) :
    (flatten^[times] selection).Somewhere (OwnChain length) ↔
      selection.Somewhere (OwnChain (2 ^ times * length)) := by
  induction times generalizing selection with
  | zero => simp
  | succ times ih =>
      rw [Function.iterate_succ_apply, ih, somewhere_ownChain_flatten_iff, ← Nat.mul_assoc,
        ← pow_succ']

end Selection

open Selection

/-- Flattening folds a selection's branches on its own type unless one of them again has a branch on
that type: where some selection set has such a branch in a branch, a branch on the type of its own
selection set is left, and only then. In general it halves such chains, however long they are. -/
theorem Operation.folded_flatten_iff (operation : Operation LinkedSelection) :
    (operation.flatten.selection.Folded ↔
      ¬ operation.selection.Somewhere fun inner => ∃ branch ∈ inner.branches,
        branch.on = inner.on ∧ ∃ further ∈ branch.branches, further.on = inner.on) ∧
      ∀ length, operation.flatten.selection.Somewhere (OwnChain length) ↔
        operation.selection.Somewhere (OwnChain (2 * length)) := by
  have htwo : OwnChain 2 = fun inner => ∃ branch ∈ inner.branches,
      branch.on = inner.on ∧ ∃ further ∈ branch.branches, further.on = inner.on := by
    funext inner
    apply propext
    rw [ownChain_succ_iff]
    apply exists_congr
    intro branch
    apply and_congr_right
    intro _
    apply and_congr_right
    intro hon
    rw [ownChain_one_iff, hon]
  constructor
  · rw [folded_iff, ← htwo]
    exact somewhere_ownChain_flatten_iff.not
  · intro length
    exact somewhere_ownChain_flatten_iff

/-- A hero, asked for the name in a branch on characters inside of another such branch. -/
def nestedHero : Operation LinkedSelection :=
  let character (fields : List (Field LinkedSelection)) (branches : List LinkedSelection) :
    LinkedSelection := ⟨"Character", ["Human", "Droid"], fields, branches, []⟩
  let hero := character [] [character [] [character [⟨"name", [], .scalar "String"⟩] []]]
  ⟨.query, none, ⟨"Query", ["Query"], [⟨"hero", [], .selection hero⟩], [], []⟩, []⟩

/-- The inner of two branches on characters is left in the one that is folded away. -/
theorem not_folded_flatten_nestedHero :
    ¬ ∀ operations : List (Operation LinkedSelection),
      ∀ operation ∈ operations.map Operation.flatten, operation.selection.Folded := by
  intro h
  have hfolded := h [nestedHero] nestedHero.flatten List.mem_cons_self
  apply folded_iff.mp hfolded
  apply somewhere_ownChain_flatten_iff.mpr
  have htwo : nestedHero.selection.Somewhere (OwnChain 2) := by
    apply Somewhere.inField List.mem_cons_self rfl
    apply Somewhere.here
    exact .step List.mem_cons_self rfl (.step List.mem_cons_self rfl (.start _))
  exact htwo

end QueryShape
