import QueryShape.OperationKind
import QueryShape.Source.Grammar

/-!
# Executable documents

Operations and fragment definitions, as written. A field's place is that of its alias if it has one,
an inline fragment's that of the token behind the dots.
-/

namespace QueryShape.Source

/-- One item of a selection set. A field without a selection set of its own has no items. -/
inductive Item where
  | field (position : Position) (alias? : Option String) (name : String) (items : List Item)
  | inline (position : Position) (on? : Option String) (items : List Item)
  | spread (name : String)

structure VariableDefinition where
  position : Position
  name : String
  type : TypeRef

structure OperationDefinition where
  position : Position
  kind : OperationKind
  name? : Option String := none
  vars : List VariableDefinition := []
  items : List Item

structure FragmentDefinition where
  position : Position
  name : String
  on : String
  items : List Item

inductive Definition where
  | operation (operation : OperationDefinition)
  | fragment (fragment : FragmentDefinition)

abbrev Document := List Definition

open QueryShape.Parser

def name? : Reader (Option String) := do
  if ← nextIs isName then return some (← name) else return none

def field (room : Nat) (nested : Reader (List Item)) : Reader Item := do
  let position ← position
  let first ← name
  let renamed ← skipIf (isPunctuator ':')
  let second ← if renamed then name else pure first
  arguments room
  discard <| directives room
  let items ← if ← nextIs (isPunctuator '\x7b') then nested else pure []
  return .field position (if renamed then some first else none) second items

/-- What follows the dots: an inline fragment if the word `on`, a directive or a selection set is
next, and the spread of a named fragment otherwise. -/
def fragmentItem (room : Nat) (nested : Reader (List Item)) : Reader Item := do
  let position ← position
  if ← skipIf (isWord "on") then
    let on ← name
    discard <| directives room
    return .inline position (some on) (← nested)
  else if ← nextIs (fun l => isPunctuator '@' l || isPunctuator '\x7b' l) then
    discard <| directives room
    return .inline position none (← nested)
  else
    let name ← name
    discard <| directives room
    return .spread name

def selectionSet : Nat → Reader (List Item)
  | 0 => failure
  | room + 1 => do
      punctuator '\x7b'
      someUntil '\x7d' do
        if ← skipIf (isToken .ellipsis) then fragmentItem room (selectionSet room)
        else field room (selectionSet room)

def variableDefinition (room : Nat) : Reader VariableDefinition := do
  let position ← position
  punctuator '$'
  let name ← name
  punctuator ':'
  let type ← typeRef room
  defaultValue room
  return { position, name, type }

def definition (room : Nat) : Reader Definition := do
  let position ← position
  if ← nextIs (isPunctuator '\x7b') then
    return .operation { position, kind := .query, items := ← selectionSet room }
  let word ← name
  if word = "fragment" then
    let name ← name
    Source.word "on"
    let on ← Source.name
    discard <| directives room
    return .fragment { position, name, on, items := ← selectionSet room }
  match OperationKind.ofText? word with
  | none => failure
  | some kind =>
      let name? ← name?
      let vars ← ifOpened '(' room fun room => someUntil ')' (variableDefinition room)
      discard <| directives room
      return .operation { position, kind, name?, vars, items := ← selectionSet room }

def Document.parse? (text : String) : Option Document := do
  let definitions ← runAll (manyWhile (fun _ => true) (definition bracketRoom)) (← lex text)
  if definitions.isEmpty then none else some definitions

end QueryShape.Source
