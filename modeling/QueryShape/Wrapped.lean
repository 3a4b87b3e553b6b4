/-!
# List and not-null wrapping

A type reference is a core under a row of wrappers: `[[Int!]]!` is `Int` under not-null, list, list
and not-null.
-/

namespace QueryShape

inductive Wrapper where
  | list
  | notNull
deriving DecidableEq, Repr

/-- A core under wrappers, the outermost wrapper first. -/
structure Wrapped (α : Type) where
  wrapping : List Wrapper := []
  core : α
deriving DecidableEq, Repr

namespace Wrapped

variable {α : Type}

def wrap (wrapper : Wrapper) (type : Wrapped α) : Wrapped α :=
  ⟨wrapper :: type.wrapping, type.core⟩

end Wrapped

/-- Writes the wrappers around the text of a core: a list in brackets, not-null with a mark. -/
def Wrapper.textAround (wrapping : List Wrapper) (core : String) : String :=
  match wrapping with
  | [] => core
  | .list :: inner => "[" ++ textAround inner core ++ "]"
  | .notNull :: inner => textAround inner core ++ "!"

abbrev TypeRef := Wrapped String

def TypeRef.text (type : TypeRef) : String :=
  Wrapper.textAround type.wrapping type.core

end QueryShape
