import QueryShape.LinkOrder
import QueryShape.Resolved

/-!
# Linked documents

Every spread is replaced by a branch that holds the fragment's own linked selection. Each fragment
is linked once, together with the number of levels that it spans.
-/

namespace QueryShape

/-- A fragment without spreads, and the levels it spans, its root selection set counting as one. -/
structure LinkedFragment where
  selection : LinkedSelection
  height : Nat

abbrev Splice := String → Typing LinkedFragment

namespace Selection

def spliceAll (maxDepth : Nat) (splice : Splice) (depth : Nat) :
    List String → Typing (List LinkedSelection × Nat)
  | [] => return ([], 0)
  | name :: rest => do
      let fragment ← splice name
      checkDepth maxDepth (depth + fragment.height)
      let (others, deepest) ← spliceAll maxDepth splice depth rest
      return (fragment.selection :: others, max (depth + fragment.height) deepest)

mutual

/-- Links a selection that lies at `depth`; the result comes with the deepest level it reaches. -/
def linkAt (maxDepth : Nat) (splice : Splice) (depth : Nat) :
    Selection String → Typing (LinkedSelection × Nat)
  | ⟨on, possible, fields, branches, spreads⟩ => do
      checkDepth maxDepth depth
      let (fields, inFields) ← linkFields maxDepth splice (depth + 1) fields
      let (branches, inBranches) ← linkBranches maxDepth splice (depth + 1) branches
      let (spliced, inSpreads) ← spliceAll maxDepth splice depth spreads
      return (⟨on, possible, fields, branches ++ spliced, []⟩,
        max depth (max inFields (max inBranches inSpreads)))

def linkFields (maxDepth : Nat) (splice : Splice) (depth : Nat) :
    List (Field (Selection String)) → Typing (List (Field LinkedSelection) × Nat)
  | [] => return ([], 0)
  | ⟨key, wrapping, core⟩ :: rest => do
      let (core, inCore) ← linkCore maxDepth splice depth core
      let (others, deepest) ← linkFields maxDepth splice depth rest
      return (⟨key, wrapping, core⟩ :: others, max inCore deepest)

def linkCore (maxDepth : Nat) (splice : Splice) (depth : Nat) :
    OutputCore (Selection String) → Typing (OutputCore LinkedSelection × Nat)
  | .scalar name => return (.scalar name, 0)
  | .enum values => return (.enum values, 0)
  | .typename => return (.typename, 0)
  | .selection nested => do
      let (nested, deepest) ← nested.linkAt maxDepth splice depth
      return (.selection nested, deepest)

def linkBranches (maxDepth : Nat) (splice : Splice) (depth : Nat) :
    List (Selection String) → Typing (List LinkedSelection × Nat)
  | [] => return ([], 0)
  | branch :: rest => do
      let (branch, inBranch) ← branch.linkAt maxDepth splice depth
      let (others, deepest) ← linkBranches maxDepth splice depth rest
      return (branch :: others, max inBranch deepest)

end

end Selection

def Fragments.splice (declared : Fragments) (linked : OrderedMap LinkedFragment) : Splice :=
  fun name =>
    match linked.find? name with
    | some fragment => return fragment
    | none =>
        if declared.contains name then throw (.unlinkedFragment (.spreadEarly name))
        else throw (.unknownFragment name)

/-- Takes the next fragment from those that wait to be linked, and links it. -/
def Fragments.linkNext (declared : Fragments) (maxDepth : Nat) :
    Fragments × OrderedMap LinkedFragment → String →
      Typing (Fragments × OrderedMap LinkedFragment)
  | (waiting, linked), name => do
      let some (selection, waiting) := waiting.swapRemove? name
        | throw (.unlinkedFragment (.scheduledTwice name))
      let (selection, height) ← selection.linkAt maxDepth (declared.splice linked) 1
      return (waiting, linked.insert name ⟨selection, height⟩)

def Fragments.linkAll (declared : Fragments) (maxDepth : Nat) (order : List String) :
    Typing (OrderedMap LinkedFragment) := do
  let (_, linked) ← order.foldlM (declared.linkNext maxDepth) (declared, ∅)
  return linked

/-- Links all fragments, used or not, and then the operations. -/
def Resolved.link (resolved : Resolved) (maxDepth : Nat) :
    Typing (List (Operation LinkedSelection)) := do
  let order ← resolved.fragments.linkOrder
  let linked ← resolved.fragments.linkAll maxDepth order
  resolved.operations.mapM fun operation => do
    let splice := resolved.fragments.splice linked
    let (selection, _) ← operation.selection.linkAt maxDepth splice 1
    return { operation with selection }

end QueryShape
