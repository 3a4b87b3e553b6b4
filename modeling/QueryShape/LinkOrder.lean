import QueryShape.Reachability
import QueryShape.Selection
import QueryShape.TypingError

/-!
# The order in which fragments are linked

Fragments are linked by the number of fragments that they depend on, in the order of their
declaration where that number is equal. If no fragment depends on itself, each then comes after all
its dependencies.
-/

namespace QueryShape

namespace LinkOrder

variable (names : List String) (spreadBy : String → List String)

def unknown? : Option String :=
  (names.flatMap spreadBy).find? (!names.contains ·)

/-- Which fragment spreads which, by their numbers in the order of declaration. -/
def spreads : Graph names.length :=
  Vector.ofFn fun i =>
    let references := spreadBy names[i]
    Vector.ofFn fun j => references.contains names[j]

/-- The names one after the other, each after all that it depends on. -/
def sorted : Typing (List String) := do
  if let some name := unknown? names spreadBy then throw (.unknownFragment name)
  let dependencies := (spreads names spreadBy).closure
  let numbers := List.finRange names.length
  let cyclic := numbers.filter fun i => dependencies.pointsTo i i
  if !cyclic.isEmpty then throw (.cyclicFragments (cyclic.map fun i => names[i]))
  let order := numbers.mergeSort fun i j => dependencies.degree i ≤ dependencies.degree j
  return order.map fun i => names[i]

end LinkOrder

namespace Fragments

variable (fragments : Fragments)

def spreadBy (name : String) : List String :=
  ((fragments.find? name).map Selection.references).getD []

def linkOrder : Typing (List String) :=
  LinkOrder.sorted fragments.keys fragments.spreadBy

end Fragments
end QueryShape
