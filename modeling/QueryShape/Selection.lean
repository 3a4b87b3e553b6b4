import QueryShape.OperationKind
import QueryShape.OrderedMap
import QueryShape.Wrapped

/-!
# Selections

A selection set with its types resolved: its own type and what this can be at run time, fields,
branches under narrower types, and spreads. A linked selection has spreads of the empty type.
-/

namespace QueryShape

/-- What is under the wrappers of a selected field's type; `σ` is a selection of its own fields. -/
inductive OutputCore (σ : Type) where
  | scalar (name : String)
  | enum (values : List String)
  | typename
  | selection (nested : σ)
deriving DecidableEq, Repr

/-- A selected field under its response key, which is the alias if there is one. -/
structure Field (σ : Type) where
  key : String
  type : Wrapped (OutputCore σ)
deriving DecidableEq, Repr

/-- A selection set on type `on`; `ρ` names the fragments that it spreads. -/
structure Selection (ρ : Type) where
  on : String
  possible : List String
  fields : List (Field (Selection ρ))
  branches : List (Selection ρ)
  spreads : List ρ
deriving Repr

abbrev LinkedSelection := Selection Empty

namespace Field

variable {σ τ : Type}

def nested? (field : Field σ) : Option σ :=
  match field.type.core with
  | .selection nested => some nested
  | _ => none

end Field

namespace Selection

variable {ρ : Type}

def children (selection : Selection ρ) : List (Selection ρ) :=
  selection.fields.filterMap Field.nested? ++ selection.branches

mutual

/-- The number of selection sets in a selection, itself included. -/
def count : Selection ρ → Nat
  | ⟨_, _, fields, branches, _⟩ => 1 + (countFields fields + countBranches branches)

def countFields : List (Field (Selection ρ)) → Nat
  | [] => 0
  | ⟨_, _, .selection nested⟩ :: rest => nested.count + countFields rest
  | ⟨_, _, .scalar _⟩ :: rest | ⟨_, _, .enum _⟩ :: rest | ⟨_, _, .typename⟩ :: rest =>
      countFields rest

def countBranches : List (Selection ρ) → Nat
  | [] => 0
  | branch :: rest => branch.count + countBranches rest

end

mutual

/-- The names of all fragments spread in a selection, in the order in which linking meets them:
those in fields, those in branches, then the selection's own. -/
def references : Selection ρ → List ρ
  | ⟨_, _, fields, branches, spreads⟩ =>
      fieldReferences fields ++ (branchReferences branches ++ spreads)

def fieldReferences : List (Field (Selection ρ)) → List ρ
  | [] => []
  | ⟨_, _, .selection nested⟩ :: rest => nested.references ++ fieldReferences rest
  | ⟨_, _, .scalar _⟩ :: rest | ⟨_, _, .enum _⟩ :: rest | ⟨_, _, .typename⟩ :: rest =>
      fieldReferences rest

def branchReferences : List (Selection ρ) → List ρ
  | [] => []
  | branch :: rest => branch.references ++ branchReferences rest

end

end Selection

inductive InputCore where
  | scalar (name : String)
  | enum (values : List String)
  | object (fields : List (String × Wrapped InputCore))

abbrev InputType := Wrapped InputCore

abbrev Fragments := OrderedMap (Selection String)

structure Operation (σ : Type) where
  kind : OperationKind
  name? : Option String
  selection : σ
  vars : List (String × InputType)

end QueryShape
