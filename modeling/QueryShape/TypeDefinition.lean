import QueryShape.OrderedMap
import QueryShape.OperationKind
import QueryShape.Wrapped

/-!
# Type definitions

The six kinds of type that a schema defines. `φ` is how fields are held: a plain list where a
definition is as written, a map where it is indexed.
-/

namespace QueryShape

inductive TypeBody (φ : Type) where
  | scalar
  | object (fields : φ) (interfaces : List String)
  | interface (fields : φ)
  | union (members : List String)
  | enum (values : List String)
  | input (fields : φ)
deriving DecidableEq

structure TypeDefinition (φ : Type) where
  name : String
  body : TypeBody φ
deriving DecidableEq

namespace TypeBody

variable {φ ψ : Type}

def isComposite : TypeBody φ → Bool
  | .object .. | .interface _ | .union _ => true
  | .scalar | .enum _ | .input _ => false

/-- An abstract type has no values of its own, only those of other object types. -/
def isAbstract : TypeBody φ → Bool
  | .interface _ | .union _ => true
  | _ => false

/-- Fields that can be selected; those of an input type cannot. -/
def fields? : TypeBody φ → Option φ
  | .object fields _ | .interface fields => some fields
  | _ => none

def map (f : φ → ψ) : TypeBody φ → TypeBody ψ
  | .scalar => .scalar
  | .object fields interfaces => .object (f fields) interfaces
  | .interface fields => .interface (f fields)
  | .union members => .union members
  | .enum values => .enum values
  | .input fields => .input (f fields)

end TypeBody

structure RootTypes where
  query : Option String := none
  mutation : Option String := none
  subscription : Option String := none
deriving DecidableEq, Repr

namespace RootTypes

def ofKind (roots : RootTypes) : OperationKind → Option String
  | .query => roots.query
  | .mutation => roots.mutation
  | .subscription => roots.subscription

def set? (roots : RootTypes) (kind : OperationKind) (type : String) : Option RootTypes :=
  if (roots.ofKind kind).isSome then none
  else match kind with
    | .query => some { roots with query := some type }
    | .mutation => some { roots with mutation := some type }
    | .subscription => some { roots with subscription := some type }

end RootTypes
end QueryShape
