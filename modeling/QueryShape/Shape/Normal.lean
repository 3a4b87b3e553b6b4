import QueryShape.OrderedMap
import QueryShape.Shape

/-!
# Normal shapes

A union or intersection of one member is that member, and an object writes each key once: at the
place where the key is first written, with the shape that is written last.
-/

namespace QueryShape.Shape

mutual

def normalize : Shape → Shape
  | .list element => .list element.normalize
  | .nullable shape => .nullable shape.normalize
  | .union [only] => only.normalize
  | .union members => .union (normalizeAll members)
  | .intersection [only] => only.normalize
  | .intersection members => .intersection (normalizeAll members)
  | .object properties => .object (OrderedMap.ofList (normalizeProperties properties)).entries
  | .boolean => .boolean
  | .string => .string
  | .number => .number
  | .literal value => .literal value
  | .reference name => .reference name

def normalizeAll : List Shape → List Shape
  | [] => []
  | shape :: rest => shape.normalize :: normalizeAll rest

def normalizeProperties : List (String × Shape) → List (String × Shape)
  | [] => []
  | (key, shape) :: rest => (key, shape.normalize) :: normalizeProperties rest

end

end QueryShape.Shape
