import QueryShape.Source.Grammar
import QueryShape.TypeDefinition

/-!
# Type system documents

The definitions of a schema text in order, each with the fields, members or values that it writes.
-/

namespace QueryShape.Source

abbrev FieldList := List (String × TypeRef)

inductive SystemDefinition where
  | schema (roots : RootTypes)
  | type (type : TypeDefinition FieldList)
  | extension (type : TypeDefinition FieldList)
  | directive

abbrev SystemDocument := List SystemDefinition

/-- Whether there is anything in a body. An interface that only implements others is empty. -/
def isEmptyBody : TypeBody FieldList → Bool
  | .scalar => true
  | .object fields interfaces => fields.isEmpty && interfaces.isEmpty
  | .interface fields | .input fields => fields.isEmpty
  | .union members => members.isEmpty
  | .enum values => values.isEmpty

def directiveLocations : List String :=
  ["QUERY", "MUTATION", "SUBSCRIPTION", "FIELD", "FRAGMENT_DEFINITION", "FRAGMENT_SPREAD",
    "INLINE_FRAGMENT", "VARIABLE_DEFINITION", "SCHEMA", "SCALAR", "OBJECT", "FIELD_DEFINITION",
    "ARGUMENT_DEFINITION", "INTERFACE", "UNION", "ENUM", "ENUM_VALUE", "INPUT_OBJECT",
    "INPUT_FIELD_DEFINITION"]

open QueryShape.Parser

def description : Reader Bool := skipIf (isToken .string)

def inputField (room : Nat) : Reader (String × TypeRef) := do
  discard description
  let name ← name
  punctuator ':'
  let type ← typeRef room
  defaultValue room
  discard <| directives room
  return (name, type)

def argumentDefinitions (room : Nat) : Reader Unit :=
  discard <| ifOpened '(' room fun room => someUntil ')' (inputField room)

def outputField (room : Nat) : Reader (String × TypeRef) := do
  discard description
  let name ← name
  argumentDefinitions room
  punctuator ':'
  let type ← typeRef room
  discard <| directives room
  return (name, type)

def enumValue (room : Nat) : Reader String := do
  discard description
  let name ← name
  discard <| directives room
  return name

def inBraces {α : Type} (room : Nat) (item : Nat → Reader α) : Reader (List α) :=
  ifOpened '\x7b' room fun room => someUntil '\x7d' (item room)

def interfaces : Reader (List String) := do
  if ← skipIf (isWord "implements") then
    discard <| skipIf (isPunctuator '&')
    separatedBy '&' name
  else return []

def members : Reader (List String) := do
  if ← skipIf (isPunctuator '=') then
    discard <| skipIf (isPunctuator '|')
    separatedBy '|' name
  else return []

def typeDefinition (room : Nat) (kind : String) : Reader (TypeDefinition FieldList × Bool) := do
  let name ← name
  match kind with
  | "scalar" =>
      let marked ← directives room
      return (⟨name, .scalar⟩, marked)
  | "type" =>
      let interfaces ← interfaces
      let marked ← directives room
      return (⟨name, .object (← inBraces room outputField) interfaces⟩, marked)
  | "interface" =>
      discard interfaces
      let marked ← directives room
      return (⟨name, .interface (← inBraces room outputField)⟩, marked)
  | "union" =>
      let marked ← directives room
      return (⟨name, .union (← members)⟩, marked)
  | "enum" =>
      let marked ← directives room
      return (⟨name, .enum (← inBraces room enumValue)⟩, marked)
  | "input" =>
      let marked ← directives room
      return (⟨name, .input (← inBraces room inputField)⟩, marked)
  | _ => failure

def rootTypes (room : Nat) : Reader RootTypes := do
  let entries ← opened '\x7b' room fun _ => itemsUntil '\x7d' do
    let kind ← name
    punctuator ':'
    return (kind, ← name)
  entries.foldlM (fun roots (kind, type) => do
    match OperationKind.ofText? kind with
    | some kind => (roots.set? kind type).elim failure pure
    | none => failure) {}

def directiveLocation : Reader Unit := do
  if directiveLocations.contains (← name) then return else failure

/-- A directive may be allowed nowhere, with nothing behind `on`; a name behind `on` is a place. -/
def directiveDefinition (room : Nat) : Reader Unit := do
  punctuator '@'
  discard name
  argumentDefinitions room
  discard <| skipIf (isWord "repeatable")
  word "on"
  let leading ← skipIf (isPunctuator '|')
  if leading || (← nextIs isName) then
    discard <| separatedBy '|' directiveLocation

def systemDefinition (room : Nat) : Reader SystemDefinition := do
  let described ← description
  let kind ← name
  match kind with
  | "schema" =>
      if described then failure
      discard <| directives room
      return .schema (← rootTypes room)
  | "extend" =>
      if described then failure
      let (type, marked) ← typeDefinition room (← name)
      if marked || !isEmptyBody type.body then return .extension type else failure
  | "directive" =>
      directiveDefinition room
      return .directive
  | kind => return .type (← typeDefinition room kind).1

def SystemDocument.parse? (text : String) : Option SystemDocument := do
  let definitions ← runAll (manyWhile (fun _ => true) (systemDefinition bracketRoom)) (← lex text)
  if definitions.isEmpty then none else some definitions

end QueryShape.Source
