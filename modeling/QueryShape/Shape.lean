/-!
# Shapes

The static shape of a response or of a variable: what a Flow type can say about a JSON value.
-/

namespace QueryShape

inductive Shape where
  | boolean
  | string
  | number
  /-- Just this string. -/
  | literal (value : String)
  /-- A type known by name only. -/
  | reference (name : String)
  | list (element : Shape)
  | nullable (shape : Shape)
  | union (members : List Shape)
  | intersection (members : List Shape)
  | object (properties : List (String × Shape))
deriving Repr

namespace Shape

instance : Inhabited Shape := ⟨.boolean⟩

def anyObject : Shape := .object []

mutual

def preorder : Shape → List Shape
  | .boolean => [.boolean]
  | .string => [.string]
  | .number => [.number]
  | .literal value => [.literal value]
  | .reference name => [.reference name]
  | .list element => .list element :: element.preorder
  | .nullable shape => .nullable shape :: shape.preorder
  | .union members => .union members :: preorderAll members
  | .intersection members => .intersection members :: preorderAll members
  | .object properties => .object properties :: preorderProperties properties

def preorderAll : List Shape → List Shape
  | [] => []
  | shape :: rest => shape.preorder ++ preorderAll rest

def preorderProperties : List (String × Shape) → List Shape
  | [] => []
  | (_, shape) :: rest => shape.preorder ++ preorderProperties rest

end

/-! ### Equality is decidable -/

mutual

def same : Shape → Shape → Bool
  | .boolean, .boolean | .string, .string | .number, .number => true
  | .literal value, .literal value' => value == value'
  | .reference name, .reference name' => name == name'
  | .list element, .list element' => element.same element'
  | .nullable shape, .nullable shape' => shape.same shape'
  | .union members, .union members' => sameAll members members'
  | .intersection members, .intersection members' => sameAll members members'
  | .object properties, .object properties' => sameProperties properties properties'
  | _, _ => false

def sameAll : List Shape → List Shape → Bool
  | [], [] => true
  | shape :: rest, shape' :: rest' => shape.same shape' && sameAll rest rest'
  | _, _ => false

def sameProperties : List (String × Shape) → List (String × Shape) → Bool
  | [], [] => true
  | (key, shape) :: rest, (key', shape') :: rest' =>
      key == key' && shape.same shape' && sameProperties rest rest'
  | _, _ => false

end

mutual

theorem same_iff (shape other : Shape) : shape.same other = true ↔ shape = other := by
  cases shape <;> cases other <;> simp [same, same_iff, sameAll_iff, sameProperties_iff]

theorem sameAll_iff (shapes others : List Shape) :
    sameAll shapes others = true ↔ shapes = others := by
  cases shapes <;> cases others <;> simp [sameAll, same_iff, sameAll_iff]

theorem sameProperties_iff (properties others : List (String × Shape)) :
    sameProperties properties others = true ↔ properties = others := by
  match properties, others with
  | [], [] => simp [sameProperties]
  | [], _ :: _ => simp [sameProperties]
  | _ :: _, [] => simp [sameProperties]
  | (key, shape) :: rest, (key', shape') :: rest' =>
      simp [sameProperties, same_iff shape, sameProperties_iff rest]

end

instance : DecidableEq Shape := fun shape other =>
  decidable_of_iff _ (same_iff shape other)

end Shape
end QueryShape
