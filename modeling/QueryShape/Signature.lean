import QueryShape.Selection.Text
import QueryShape.Shape.Normal
import QueryShape.Shape.Text
import QueryShape.TypingError

/-!
# Signatures

The shapes of an operation's response and of its variables. Fields make an object, and branches a
union beside it, with an unknown object unless they cover exactly the possible types.
-/

namespace QueryShape

structure Signature where
  kind : OperationKind
  name? : Option String
  result : Shape
  vars : List (String × Shape)
deriving DecidableEq, Repr

namespace Shape

def orNull (nullable : Bool) (shape : Shape) : Shape := if nullable then .nullable shape else shape

/-- A shape under the wrappers of a type. Inside a list, and where there is no wrapper at all, null
is possible; `never` says that the core itself is never null. -/
def wrapped (wrapping : List Wrapper) (nullable never : Bool) (core : Shape) : Shape :=
  match wrapping with
  | [] => orNull (nullable && !never) core
  | .list :: inner => orNull nullable (.list (wrapped inner true never core))
  | .notNull :: inner => wrapped inner false never core

def ofScalar : String → Shape
  | "Int" | "Float" => .number
  | "ID" | "String" => .string
  | "Boolean" => .boolean
  | custom => .reference custom

def ofNames (names : List String) : Shape := .union (names.map .literal)

/-- The shape of a type's name, where the type is one of `possible`. -/
def ofTypename (exact : Bool) (possible : List String) : Shape :=
  match possible with
  | [] => .string
  | [single] => if exact then .literal single else .string
  | possible => ofNames possible

/-- An object with these properties that is also of one of the shapes of its branches. -/
def ofParts (properties : List (String × Shape)) (branches : List Shape) : Shape :=
  match properties, branches with
  | [], [] => anyObject
  | properties, [] => .object properties
  | [], branches => .union branches
  | properties, branches => .intersection [.object properties, .union branches]

end Shape

namespace Selection

/-- There are as many branches as possible types, and each possible type has a branch. -/
def isExhaustive (selection : LinkedSelection) : Bool :=
  selection.branches.length == selection.possible.length &&
    selection.possible.all fun type => selection.branches.any (·.on == type)

/-- Adds the shape of an unknown object to the branches of a selection that do not cover it. -/
def withFallback (selection : LinkedSelection) (branches : List Shape) : List Shape :=
  if branches.isEmpty || selection.isExhaustive then branches else branches ++ [.anyObject]

mutual

/-- The shape of a selection that lies at `depth`. -/
def shapeAt (options : Options) (depth : Nat) : LinkedSelection → Typing Shape
  | ⟨on, possible, fields, branches, spreads⟩ => do
      checkDepth options.maxDepth depth
      let properties ← propertiesAt options possible (depth + 1) fields
      let shapes ← shapesAt options (depth + 1) branches
      return .ofParts properties (withFallback ⟨on, possible, fields, branches, spreads⟩ shapes)

def propertiesAt (options : Options) (possible : List String) (depth : Nat) :
    List (Field LinkedSelection) → Typing (List (String × Shape))
  | [] => return []
  | ⟨key, wrapping, core⟩ :: rest => do
      let shape ← coreShapeAt options possible depth wrapping core
      return (key, shape) :: (← propertiesAt options possible depth rest)

/-- The shape of a core under its wrappers. The name of a type is never null. -/
def coreShapeAt (options : Options) (possible : List String) (depth : Nat)
    (wrapping : List Wrapper) : OutputCore LinkedSelection → Typing Shape
  | .scalar name => return .wrapped wrapping true false (.ofScalar name)
  | .enum values => return .wrapped wrapping true false (.ofNames values)
  | .typename =>
      return .wrapped wrapping true true (.ofTypename options.exactTypename possible)
  | .selection nested =>
      return .wrapped wrapping true false (← nested.shapeAt options depth)

def shapesAt (options : Options) (depth : Nat) : List LinkedSelection → Typing (List Shape)
  | [] => return []
  | branch :: rest => do
      let shape ← branch.shapeAt options depth
      return shape :: (← shapesAt options depth rest)

end

end Selection

mutual

def InputCore.shape : InputCore → Shape
  | .scalar name => .ofScalar name
  | .enum values => .ofNames values
  | .object fields => .object (InputCore.properties fields)

def InputCore.properties : List (String × Wrapped InputCore) → List (String × Shape)
  | [] => []
  | (key, ⟨wrapping, core⟩) :: rest =>
      (key, .wrapped wrapping true false core.shape) :: InputCore.properties rest

end

def InputType.shape (type : InputType) : Shape :=
  .wrapped type.wrapping true false type.core.shape

def Operation.signature (options : Options) (operation : Operation LinkedSelection) :
    Typing Signature := do
  let result ← operation.selection.shapeAt options 1
  return {
    kind := operation.kind
    name? := operation.name?
    result := result.normalize
    vars := operation.vars.map fun (name, type) => (name, (InputType.shape type).normalize) }

namespace Signature

def shapeOf? (signature : Signature) (name : String) : Option Shape :=
  signature.vars.lookup name

def text (depth : Nat) (signature : Signature) : String :=
  indent depth ++ signature.kind.text ++ (signature.name?.map (" " ++ ·)).getD "" ++ "\n" ++
    String.join (signature.vars.map fun (name, shape) =>
      indent (depth + 1) ++ "$" ++ name ++ ": " ++ shape.text ++ "\n") ++
    indent (depth + 1) ++ "=> " ++ signature.result.text ++ "\n"

def variableLines (signature : Signature) : List String :=
  signature.vars.map fun (name, shape) => "$" ++ name ++ ": " ++ shape.text

def toJson (signature : Signature) : Json :=
  .object <|
    [("kind", .string signature.kind.text)] ++
    (signature.name?.map fun name => ("name", Json.string name)).toList ++
    [("result", signature.result.toJson),
      ("variables", .array (signature.vars.map fun (name, shape) =>
        .object [("name", .string name), ("type", shape.toJson)]))]

def documentJson (signatures : List Signature) : Json :=
  .object [("operations", .array (signatures.map toJson))]

end Signature
end QueryShape
