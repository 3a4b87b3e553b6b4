import QueryShape.InputExpansion
import QueryShape.Source.Executable

/-!
# Resolved documents

Every field, type condition and variable of a document, looked up in a schema. Named fragments are
resolved on their own and stay named where they are spread.
-/

namespace QueryShape

/-- A document with its types looked up; a fragment defined again keeps its place and takes the
later definition. -/
structure Resolved where
  operations : List (Operation (Selection String))
  fragments : Fragments

/-- What one item of a selection set adds to its selection. -/
inductive Part (ρ : Type) where
  | field (field : Field (Selection ρ))
  | branch (branch : Selection ρ)
  | spread (name : ρ)

namespace Selection

variable {ρ : Type}

def nothing (on : String) (possible : List String) : Selection ρ := ⟨on, possible, [], [], []⟩

def cons (part : Part ρ) (selection : Selection ρ) : Selection ρ :=
  match part with
  | .field field => { selection with fields := field :: selection.fields }
  | .branch branch => { selection with branches := branch :: selection.branches }
  | .spread name => { selection with spreads := name :: selection.spreads }

end Selection

namespace Schema

open Source (Item)

def typenameField : String := "__typename"

def scope (schema : Schema) (type : String) (position : Position) : Typing (Selection String) :=
  match schema.definition? type with
  | none => throw (.unknownType type position)
  | some definition =>
      if definition.body.isComposite then return .nothing type (schema.possibleTypes type)
      else throw (.notComposite type position)

def fieldType? (schema : Schema) (on field : String) : Option TypeRef := do
  (← (← schema.definition? on).body.fields?).find? field

/-- The core of the type of a selected field; `select` selects from the type if it is composite. -/
def outputCore (schema : Schema) (type : String) (position : Position)
    (select : Selection String → Typing (Selection String)) :
    Typing (OutputCore (Selection String)) :=
  match schema.definition? type with
  | none => throw (.unknownType type position)
  | some definition =>
      match definition.body with
      | .scalar => return .scalar type
      | .enum values => return .enum values
      | .input _ => throw (.notOutput type position)
      | .object .. | .interface _ | .union _ => do
          return .selection (← select (.nothing type (schema.possibleTypes type)))

def inlineScope (schema : Schema) (scope : Selection String) (on? : Option String)
    (position : Position) : Typing (Selection String) :=
  match on? with
  | some on => schema.scope on position
  | none => return .nothing scope.on scope.possible

mutual

/-- What an item adds to a selection at `depth` that selects from `scope`. -/
def resolveItem (schema : Schema) (maxDepth : Nat) (scope : Selection String) (depth : Nat) :
    Item → Typing (Part String)
  | .field position alias? name items =>
      if name = typenameField then return .field ⟨alias?.getD name, { core := .typename }⟩
      else
        match schema.fieldType? scope.on name with
        | none => throw (.unknownField name scope.on position)
        | some type => do
            let core ← schema.outputCore type.core position fun nested =>
              if items.isEmpty then throw (.missingSelection name type.core position)
              else do
                checkDepth maxDepth (depth + 1)
                schema.resolveItems maxDepth nested (depth + 1) items
            return .field ⟨alias?.getD name, type.wrapping, core⟩
  | .inline position on? items => do
      let branch ← schema.inlineScope scope on? position
      checkDepth maxDepth (depth + 1)
      return .branch (← schema.resolveItems maxDepth branch (depth + 1) items)
  | .spread name => return .spread name

def resolveItems (schema : Schema) (maxDepth : Nat) (scope : Selection String) (depth : Nat) :
    List Item → Typing (Selection String)
  | [] => return scope
  | item :: rest => do
      let part ← schema.resolveItem maxDepth scope depth item
      return (← schema.resolveItems maxDepth scope depth rest).cons part

end

def resolveRoot (schema : Schema) (maxDepth : Nat) (type : String) (position : Position)
    (items : List Item) : Typing (Selection String) := do
  let scope ← schema.scope type position
  checkDepth maxDepth 1
  schema.resolveItems maxDepth scope 1 items

def resolveOperation (schema : Schema) (maxDepth : Nat) (operation : Source.OperationDefinition) :
    Typing (Operation (Selection String)) := do
  let some root := schema.roots.ofKind operation.kind
    | throw (.noRootType operation.kind)
  let vars ← operation.vars.mapM fun declared => do
    return (declared.name, ← schema.inputType declared.position declared.type)
  let selection ← schema.resolveRoot maxDepth root operation.position operation.items
  return { kind := operation.kind, name? := operation.name?, selection, vars }

def resolveDefinition (schema : Schema) (maxDepth : Nat) (resolved : Resolved) :
    Source.Definition → Typing Resolved
  | .operation definition => do
      let operation ← schema.resolveOperation maxDepth definition
      return { resolved with operations := resolved.operations ++ [operation] }
  | .fragment definition => do
      let selection ←
        schema.resolveRoot maxDepth definition.on definition.position definition.items
      return { resolved with fragments := resolved.fragments.insert definition.name selection }

/-- Resolves the definitions of a document in order; the first that cannot be resolved refuses
it. -/
def resolve (schema : Schema) (maxDepth : Nat) (document : Source.Document) : Typing Resolved :=
  document.foldlM (schema.resolveDefinition maxDepth) ⟨[], ∅⟩

end Schema
end QueryShape
