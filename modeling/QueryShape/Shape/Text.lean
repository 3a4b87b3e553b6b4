import QueryShape.Json
import QueryShape.Shape

/-!
# Shapes as Flow types

The Flow syntax of a shape on one line, and its JSON form.
-/

namespace QueryShape.Shape

mutual

def text : Shape → String
  | .boolean => "boolean"
  | .string => "string"
  | .number => "number"
  | .literal value => Json.quote value
  | .reference name => name
  | .list element => "Array<" ++ element.text ++ ">"
  | .nullable shape => "?" ++ shape.text
  | .union members => "( " ++ String.intercalate " | " (texts members) ++ " )"
  | .intersection members => "( " ++ String.intercalate " & " (texts members) ++ " )"
  | .object properties => "\x7b" ++ String.intercalate ", " (propertyTexts properties) ++ "\x7d"

def texts : List Shape → List String
  | [] => []
  | shape :: rest => shape.text :: texts rest

def propertyTexts : List (String × Shape) → List String
  | [] => []
  | (key, shape) :: rest => (key ++ ": " ++ shape.text) :: propertyTexts rest

end

def jsonKind (kind : String) : Json := .object [("kind", .string kind)]

def jsonOf (kind : String) (content : Json) : Json :=
  .object [("kind", .string kind), ("of", content)]

mutual

def toJson : Shape → Json
  | .boolean => jsonKind "Boolean"
  | .string => jsonKind "String"
  | .number => jsonKind "Number"
  | .literal value => jsonOf "StringLiteral" (.string value)
  | .reference name => jsonOf "Reference" (.string name)
  | .list element => jsonOf "List" element.toJson
  | .nullable shape => jsonOf "Nullable" shape.toJson
  | .union members => jsonOf "Union" (.array (toJsons members))
  | .intersection members => jsonOf "Intersection" (.array (toJsons members))
  | .object properties => jsonOf "Object" (.array (propertyJsons properties))

def toJsons : List Shape → List Json
  | [] => []
  | shape :: rest => shape.toJson :: toJsons rest

def propertyJsons : List (String × Shape) → List Json
  | [] => []
  | (key, shape) :: rest =>
      .object [("key", .string key), ("type", shape.toJson)] :: propertyJsons rest

end

end QueryShape.Shape
