import QueryShape.OperationKind
import QueryShape.Source.Token

/-!
# Why a document has no types

The causes for which a document is refused, and their wording.
-/

namespace QueryShape

/-- How a fragment can be missing where it is linked or spread. The link order rules both out. -/
inductive Unlinked where
  /-- It is to be linked a second time. -/
  | scheduledTwice (fragment : String)
  /-- It is declared but not linked yet where it is spread. -/
  | spreadEarly (fragment : String)
deriving DecidableEq, Repr

inductive TypingError where
  | unknownType (type : String) (position : Position)
  | noRootType (kind : OperationKind)
  | unknownField (field type : String) (position : Position)
  | notComposite (type : String) (position : Position)
  | notInput (type : String) (position : Position)
  | notOutput (type : String) (position : Position)
  | missingSelection (field type : String) (position : Position)
  | unknownFragment (fragment : String)
  | cyclicFragments (fragments : List String)
  | recursiveInput (type : String)
  | tooDeep (maxDepth : Nat)
  | unlinkedFragment (cause : Unlinked)
deriving DecidableEq, Repr

namespace TypingError

def message : TypingError → String
  | .unknownType type position => "Could not resolve type '" ++ type ++ "' at " ++ position.text
  | .noRootType kind => "Schema has no root type for " ++ kind.text ++ " operations"
  | .unknownField field type position =>
      "Could not resolve field '" ++ field ++ "' on type '" ++ type ++ "' at " ++ position.text
  | .notComposite type position =>
      "Type '" ++ type ++ "' used at " ++ position.text ++ " is not a composite type"
  | .notInput type position =>
      "Type '" ++ type ++ "' used at " ++ position.text ++ " is not an input type"
  | .notOutput type position =>
      "Type '" ++ type ++ "' used at " ++ position.text ++ " is not an output type"
  | .missingSelection field type position =>
      "Field '" ++ field ++ "' of composite type '" ++ type ++ "' at " ++ position.text ++
        " has no selection set"
  | .unknownFragment fragment => "Could not resolve fragment with name '" ++ fragment ++ "'"
  | .cyclicFragments fragments =>
      "Fragments spread each other in a cycle: " ++ String.intercalate ", " fragments
  | .recursiveInput type => "Input type '" ++ type ++ "' references itself"
  | .tooDeep maxDepth => "Selection nesting exceeds the maximum depth of " ++ maxDepth.repr
  | .unlinkedFragment (.scheduledTwice fragment) =>
      "Internal Error: fragment '" ++ fragment ++ "' was scheduled twice"
  | .unlinkedFragment (.spreadEarly fragment) =>
      "Internal Error: fragment '" ++ fragment ++ "' is spread before it was linked"

end TypingError

abbrev Typing := Except TypingError

structure Options where
  /-- The deepest nesting of selection sets that is accepted, the outermost being at depth one. -/
  maxDepth : Nat := 64
  /-- Types the name of a type as a literal where only one object type is possible. -/
  exactTypename : Bool := false
deriving DecidableEq, Repr

/-- Refuses a selection set that lies deeper than allowed. -/
def checkDepth (maxDepth depth : Nat) : Typing Unit :=
  if depth > maxDepth then throw (.tooDeep maxDepth) else return ()

end QueryShape
