import QueryShape.Proofs.Outcome
import QueryShape.Signature

/-!
# The shape of a selection

Typing a selection refuses it if one of its selection sets lies too deep, and otherwise gives a
shape that does not depend on where the selection lies or how deep it may reach.
-/

namespace QueryShape.Selection

open Outcome

variable {ρ : Type}

mutual

/-- The depth of the deepest selection set in a selection that lies at `depth`. -/
def deepest (depth : Nat) : Selection ρ → Nat
  | ⟨_, _, fields, branches, _⟩ =>
      max depth (max (deepestField (depth + 1) fields) (deepestBranch (depth + 1) branches))

def deepestField (depth : Nat) : List (Field (Selection ρ)) → Nat
  | [] => 0
  | ⟨_, _, core⟩ :: rest => max (deepestCore depth core) (deepestField depth rest)

def deepestCore (depth : Nat) : OutputCore (Selection ρ) → Nat
  | .scalar _ | .enum _ | .typename => 0
  | .selection nested => nested.deepest depth

def deepestBranch (depth : Nat) : List (Selection ρ) → Nat
  | [] => 0
  | branch :: rest => max (branch.deepest depth) (deepestBranch depth rest)

end

mutual

def shape (options : Options) : LinkedSelection → Shape
  | ⟨on, possible, fields, branches, spreads⟩ =>
      .ofParts (properties options possible fields)
        (withFallback ⟨on, possible, fields, branches, spreads⟩ (shapes options branches))

def properties (options : Options) (possible : List String) :
    List (Field LinkedSelection) → List (String × Shape)
  | [] => []
  | ⟨key, wrapping, core⟩ :: rest =>
      (key, coreShape options possible wrapping core) :: properties options possible rest

def coreShape (options : Options) (possible : List String) (wrapping : List Wrapper) :
    OutputCore LinkedSelection → Shape
  | .scalar name => .wrapped wrapping true false (.ofScalar name)
  | .enum values => .wrapped wrapping true false (.ofNames values)
  | .typename => .wrapped wrapping true true (.ofTypename options.exactTypename possible)
  | .selection nested => .wrapped wrapping true false (nested.shape options)

def shapes (options : Options) : List LinkedSelection → List Shape
  | [] => []
  | branch :: rest => branch.shape options :: shapes options rest

end

mutual

/-- Typing is one check of the depth that a selection reaches. -/
theorem shapeAt_eq (options : Options) (depth : Nat) (selection : LinkedSelection) :
    selection.shapeAt options depth = (do
      checkDepth options.maxDepth (selection.deepest depth)
      return selection.shape options) := by
  match selection with
  | ⟨on, possible, fields, branches, spreads⟩ =>
      simp only [shapeAt, deepest, shape, propertiesAt_eq, shapesAt_eq, bind_assoc, pure_bind,
        checkDepth_bind_checkDepth]

theorem propertiesAt_eq (options : Options) (possible : List String) (depth : Nat)
    (fields : List (Field LinkedSelection)) :
    propertiesAt options possible depth fields = (do
      checkDepth options.maxDepth (deepestField depth fields)
      return properties options possible fields) := by
  match fields with
  | [] => simp only [propertiesAt, deepestField, properties, checkDepth_zero, pure_bind]
  | ⟨key, wrapping, core⟩ :: rest =>
      simp only [propertiesAt, deepestField, properties, coreShapeAt_eq, propertiesAt_eq,
        bind_assoc, pure_bind, checkDepth_bind_checkDepth]

theorem coreShapeAt_eq (options : Options) (possible : List String) (depth : Nat)
    (wrapping : List Wrapper) (core : OutputCore LinkedSelection) :
    coreShapeAt options possible depth wrapping core = (do
      checkDepth options.maxDepth (deepestCore depth core)
      return coreShape options possible wrapping core) := by
  match core with
  | .scalar _ | .enum _ | .typename =>
      simp only [coreShapeAt, deepestCore, coreShape, checkDepth_zero, pure_bind]
  | .selection nested =>
      simp only [coreShapeAt, deepestCore, coreShape, shapeAt_eq, bind_assoc, pure_bind]

theorem shapesAt_eq (options : Options) (depth : Nat) (branches : List LinkedSelection) :
    shapesAt options depth branches = (do
      checkDepth options.maxDepth (deepestBranch depth branches)
      return shapes options branches) := by
  match branches with
  | [] => simp only [shapesAt, deepestBranch, shapes, checkDepth_zero, pure_bind]
  | branch :: rest =>
      simp only [shapesAt, deepestBranch, shapes, shapeAt_eq, shapesAt_eq, bind_assoc, pure_bind,
        checkDepth_bind_checkDepth]

end

theorem shapes_eq_map (options : Options) (branches : List LinkedSelection) :
    shapes options branches = branches.map (shape options) := by
  induction branches with
  | nil => rfl
  | cons branch rest ih => rw [shapes, ih, List.map_cons]

theorem properties_eq_map (options : Options) (possible : List String)
    (fields : List (Field LinkedSelection)) :
    properties options possible fields = fields.map fun field =>
      (field.key, coreShape options possible field.type.wrapping field.type.core) := by
  induction fields with
  | nil => rfl
  | cons field rest ih => rw [properties, ih, List.map_cons]

theorem shape_eq (options : Options) (selection : LinkedSelection) :
    selection.shape options = .ofParts
      (selection.fields.map fun field =>
        (field.key, coreShape options selection.possible field.type.wrapping field.type.core))
      (withFallback selection (selection.branches.map (shape options))) := by
  obtain ⟨on, possible, fields, branches, spreads⟩ := selection
  rw [shape, properties_eq_map, shapes_eq_map]

theorem deepestField_eq_foldr (depth : Nat) (fields : List (Field (Selection ρ))) :
    deepestField depth fields =
      (fields.map fun field => deepestCore depth field.type.core).foldr max 0 := by
  induction fields with
  | nil => rfl
  | cons field rest ih => rw [deepestField, ih, List.map_cons, List.foldr_cons]

theorem deepestBranch_eq_foldr (depth : Nat) (branches : List (Selection ρ)) :
    deepestBranch depth branches = (branches.map (deepest depth)).foldr max 0 := by
  induction branches with
  | nil => rfl
  | cons branch rest ih => rw [deepestBranch, ih, List.map_cons, List.foldr_cons]

theorem isExhaustive_eq (selection : LinkedSelection) : selection.isExhaustive =
    ((selection.branches.map on).length == selection.possible.length &&
      selection.possible.all fun type => (selection.branches.map on).any (· == type)) := by
  simp only [isExhaustive, List.length_map, List.any_map, Function.comp_def]

end QueryShape.Selection
