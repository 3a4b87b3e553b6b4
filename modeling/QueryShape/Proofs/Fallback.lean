import Mathlib.Data.List.Perm.Subperm
import QueryShape.Proofs.PossibleTypes
import QueryShape.Proofs.SelectionShape

/-!
# Unknown objects among the shapes of branches

A selection is one of its branches or, unless these are on exactly the possible types, an unknown
object. Comparing two lengths decides this, because possible types are distinct.
-/

namespace QueryShape

open Outcome
open Source (SystemDocument)

/-- The shapes between which a shape made of properties and branches leaves the choice. -/
def Shape.alternatives : Shape → List Shape
  | .union members | .intersection [.object _, .union members] => members
  | _ => []

theorem Shape.alternatives_ofParts (properties : List (String × Shape)) (branches : List Shape) :
    (ofParts properties branches).alternatives = branches := by
  cases properties <;> cases branches <;> rfl

namespace Selection

variable {options : Options} {depth : Nat} {selection : LinkedSelection}

/-- The shape of a selection that lies at `depth` leaves the choice between the shapes of its
branches, in their order, and `further`. -/
def Alternatives (options : Options) (depth : Nat) (selection : LinkedSelection)
    (further : List Shape) : Prop :=
  ∃ shapes shape, selection.branches.mapM (shapeAt options (depth + 1)) = .ok shapes ∧
    selection.shapeAt options depth = .ok shape ∧ shape.alternatives = shapes ++ further

def AddsNothing (options : Options) (depth : Nat) (selection : LinkedSelection) : Prop :=
  selection.Alternatives options depth []

def AddsFallback (options : Options) (depth : Nat) (selection : LinkedSelection) : Prop :=
  selection.Alternatives options depth [.anyObject]

theorem shapesAt_eq_mapM (options : Options) (depth : Nat) (branches : List LinkedSelection) :
    shapesAt options depth branches = branches.mapM (shapeAt options depth) := by
  induction branches with
  | nil => rfl
  | cons branch rest ih => rw [shapesAt, List.mapM_cons, ih]

theorem alternatives_shapeAt {shape : Shape} (h : selection.shapeAt options depth = .ok shape) :
    ∃ shapes, selection.branches.mapM (shapeAt options (depth + 1)) = .ok shapes ∧
      shape.alternatives = withFallback selection shapes := by
  obtain ⟨on, possible, fields, branches, spreads⟩ := selection
  simp only [shapeAt, bind_eq_ok, pure_eq_ok, shapesAt_eq_mapM] at h
  obtain ⟨_, _, properties, _, shapes, hshapes, rfl⟩ := h
  exact ⟨shapes, hshapes, Shape.alternatives_ofParts properties _⟩

theorem withFallback_eq_append {shapes : List Shape}
    (h : selection.branches.mapM (shapeAt options depth) = .ok shapes) :
    withFallback selection shapes =
      shapes ++ if selection.branches = [] ∨ selection.isExhaustive then [] else [.anyObject] := by
  have hlength := (mapM_eq_ok h).length_eq
  have hempty : shapes.isEmpty = true ↔ selection.branches = [] := by
    rw [List.isEmpty_iff, ← List.length_eq_zero_iff, ← hlength, List.length_eq_zero_iff]
  unfold withFallback
  simp only [Bool.or_eq_true, hempty]
  split
  · rw [List.append_nil]
  · rfl

theorem alternatives_iff {shape : Shape} (h : selection.shapeAt options depth = .ok shape)
    (further : List Shape) :
    selection.Alternatives options depth further ↔
      further = if selection.branches = [] ∨ selection.isExhaustive then [] else [.anyObject] := by
  obtain ⟨shapes, hshapes, hshape⟩ := alternatives_shapeAt h
  rw [withFallback_eq_append hshapes] at hshape
  constructor
  · intro ⟨shapes', shape', hshapes', h', hshape'⟩
    rw [hshapes] at hshapes'
    rw [h] at h'
    cases hshapes'
    cases h'
    rw [hshape] at hshape'
    exact (List.append_cancel_left hshape').symm
  · intro hfurther
    rw [← hfurther] at hshape
    exact ⟨shapes, shape, hshapes, h, hshape⟩

theorem addsNothing_iff {shape : Shape} (h : selection.shapeAt options depth = .ok shape) :
    selection.AddsNothing options depth ↔ selection.branches = [] ∨ selection.isExhaustive := by
  rw [AddsNothing, alternatives_iff h]
  split <;> simp_all

theorem addsFallback_iff {shape : Shape} (h : selection.shapeAt options depth = .ok shape) :
    selection.AddsFallback options depth ↔ ¬ selection.AddsNothing options depth := by
  rw [addsNothing_iff h, AddsFallback, alternatives_iff h]
  split <;> simp_all

/-! ### Exhaustive branches -/

theorem isExhaustive_iff : selection.isExhaustive = true ↔
    (selection.branches.map on).length = selection.possible.length ∧
      selection.possible ⊆ selection.branches.map on := by
  rw [isExhaustive_eq, Bool.and_eq_true, beq_iff_eq, List.all_eq_true]
  simp only [List.any_beq', List.elem_eq_mem, decide_eq_true_eq, List.subset_def]

/-- As many branches as distinct possible types leave no room for a branch on another type. -/
theorem isExhaustive_iff_perm (hp : selection.possible.Nodup) :
    selection.isExhaustive = true ↔ (selection.branches.map on).Perm selection.possible := by
  rw [isExhaustive_iff]
  constructor
  · intro ⟨hlength, hsubset⟩
    have hsub := List.subperm_of_subset hp hsubset
    exact (hsub.perm_of_length_le (Nat.le_of_eq hlength)).symm
  · intro hperm
    exact ⟨hperm.length_eq, hperm.symm.subset⟩

/-- Where a selection can be typed, an unknown object either completes the shapes of its branches or
does not. Without branches there is nothing to complete. With branches it is left out only if each
possible type has one, and, possible types being distinct, exactly if the branches are on the
possible types in some order: a branch on another type, or a possible type without a branch, calls
for it. Possible types are distinct unless a union lists a member twice. -/
theorem adds_fallback_unless_covered {shape : Shape}
    (h : selection.shapeAt options depth = .ok shape) :
    (selection.AddsFallback options depth ↔ ¬ selection.AddsNothing options depth) ∧
    (selection.branches = [] → selection.AddsNothing options depth) ∧
    (selection.branches ≠ [] →
      (selection.AddsNothing options depth →
        ∀ type ∈ selection.possible, ∃ branch ∈ selection.branches, branch.on = type) ∧
      (selection.possible.Nodup →
        (selection.AddsNothing options depth ↔
          (selection.branches.map on).Perm selection.possible) ∧
        ((∃ branch ∈ selection.branches, branch.on ∉ selection.possible) ∨
            (∃ type ∈ selection.possible, ∀ branch ∈ selection.branches, branch.on ≠ type) →
          selection.AddsFallback options depth))) ∧
    ∀ (document : SystemDocument) (name : String),
      (∀ members, ((Schema.ofDocument document).definition? name).map TypeDefinition.body =
        some (.union members) → members.Nodup) →
      ((Schema.ofDocument document).possibleTypes name).Nodup := by
  have hfallback := addsFallback_iff h
  have hnothing := addsNothing_iff h
  have hwith (hb : selection.branches ≠ []) :
      selection.AddsNothing options depth ↔ selection.isExhaustive = true := by
    simp only [hnothing, hb, false_or]
  have hperm (hb : selection.branches ≠ []) (hp : selection.possible.Nodup) :
      selection.AddsNothing options depth ↔
        (selection.branches.map on).Perm selection.possible :=
    (hwith hb).trans (isExhaustive_iff_perm hp)
  refine ⟨hfallback, ?_, ?_, Schema.nodup_possibleTypes⟩
  · intro hb
    exact hnothing.mpr (.inl hb)
  · intro hb
    refine ⟨?_, fun hp => ⟨hperm hb hp, ?_⟩⟩
    · intro hadds type ht
      have hsubset := (isExhaustive_iff.mp ((hwith hb).mp hadds)).2
      exact List.mem_map.mp (hsubset ht)
    · intro huncovered
      rw [hfallback, hperm hb hp]
      intro h
      cases huncovered with
      | inl outside =>
          obtain ⟨branch, hbranch, hon⟩ := outside
          exact hon (h.subset (List.mem_map_of_mem hbranch))
      | inr missing =>
          obtain ⟨type, ht, hon⟩ := missing
          obtain ⟨branch, hbranch, rfl⟩ := List.mem_map.mp (h.symm.subset ht)
          exact hon branch hbranch rfl

/-- The name of what is found, which can be a human, a droid or a starship, on each of these
types. -/
def searchSelection (types : List (String × List String)) : LinkedSelection :=
  ⟨"SearchResult", ["Human", "Droid", "Starship"], [], types.map fun (on, possible) =>
    ⟨on, possible, [⟨"name", [], .scalar "String"⟩], [], []⟩, []⟩

def eachResult : List (String × List String) :=
  [("Droid", ["Droid"]), ("Human", ["Human"]), ("Starship", ["Starship"])]

theorem adds_fallback_searchSelection :
    (searchSelection eachResult).AddsNothing {} 2 ∧
      (searchSelection (eachResult.take 2)).AddsFallback {} 2 ∧
      (searchSelection (eachResult ++ [("Character", ["Human", "Droid"])])).AddsFallback {} 2 := by
  have hdistinct : ["Human", "Droid", "Starship"].Nodup := by decide
  obtain ⟨_, heach⟩ : ∃ shape, (searchSelection eachResult).shapeAt {} 2 = .ok shape := ⟨_, rfl⟩
  obtain ⟨_, hsome⟩ : ∃ shape, (searchSelection (eachResult.take 2)).shapeAt {} 2 = .ok shape :=
    ⟨_, rfl⟩
  obtain ⟨_, hmore⟩ : ∃ shape, (searchSelection (eachResult ++
    [("Character", ["Human", "Droid"])])).shapeAt {} 2 = .ok shape := ⟨_, rfl⟩
  have hcovered := ((adds_fallback_unless_covered heach).2.2.1 (by decide)).2 hdistinct
  have hmissing := ((adds_fallback_unless_covered hsome).2.2.1 (by decide)).2 hdistinct
  have hextra := ((adds_fallback_unless_covered hmore).2.2.1 (by decide)).2 hdistinct
  refine ⟨hcovered.1.mpr ?_, hmissing.2 (.inr ?_), hextra.2 (.inl ?_)⟩
  · decide
  · exact ⟨"Starship", by decide, by decide⟩
  · simp [searchSelection, eachResult]

end Selection
end QueryShape
