import QueryShape.Counting
import QueryShape.Schema
import QueryShape.Selection
import QueryShape.TypingError

/-!
# Expanding input types

The type of a variable is expanded down to scalars and enums. An input type met inside itself is
refused, so the expansion ends.
-/

namespace QueryShape

namespace Schema

/-- The number of defined names that are not yet being expanded. -/
def unexpanded (schema : Schema) (expanding : List String) : Nat :=
  schema.definitions.keys.countP (!expanding.contains ·)

theorem unexpanded_lt {schema : Schema} {expanding : List String} {name : String}
    {type : TypeDefinition FieldMap} (hd : schema.definition? name = some type)
    (hn : name ∉ expanding) :
    schema.unexpanded (name :: expanding) < schema.unexpanded expanding :=
  countP_lt_of_imp (a := name) (by simp) (OrderedMap.mem_keys_of_find? hd) (by simpa using hn)
    (by simp)

/-- Expands the input type `name`, met inside the input types `expanding`. -/
def expandInput (schema : Schema) (position : Position) (expanding : List String) (name : String) :
    Typing InputCore :=
  match _hd : schema.definition? name with
  | none => throw (.unknownType name position)
  | some type =>
      match type.body with
      | .scalar => return .scalar name
      | .enum values => return .enum values
      | .input fields =>
          if _hn : name ∈ expanding then throw (.recursiveInput name)
          else do
            let fields ← fields.entries.mapM fun (key, type) => do
              let core ← schema.expandInput position (name :: expanding) type.core
              return (key, ⟨type.wrapping, core⟩)
            return .object fields
      | .object .. | .interface _ | .union _ => throw (.notInput name position)
termination_by schema.unexpanded expanding
decreasing_by exact unexpanded_lt _hd _hn

def inputType (schema : Schema) (position : Position) (type : TypeRef) : Typing InputType := do
  return ⟨type.wrapping, ← schema.expandInput position [] type.core⟩

end Schema
end QueryShape
