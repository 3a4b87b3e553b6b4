import QueryShape.Source.TypeSystem

/-!
# Schemas

A schema has one definition per type name: the last one that the text writes, merged with all
extensions of its kind.
-/

namespace QueryShape

/-- The fields of a type. A field written again keeps its place and takes the later type. -/
abbrev FieldMap := OrderedMap TypeRef

/-- Adds what an extension of the same kind writes; one of another kind adds nothing. -/
def TypeBody.extend : TypeBody FieldMap → TypeBody Source.FieldList → TypeBody FieldMap
  | .object fields interfaces, .object moreFields moreInterfaces =>
      .object (fields.insertAll moreFields) (interfaces ++ moreInterfaces)
  | .interface fields, .interface moreFields => .interface (fields.insertAll moreFields)
  | .union members, .union moreMembers => .union (members ++ moreMembers)
  | .enum values, .enum moreValues => .enum (values ++ moreValues)
  | .input fields, .input moreFields => .input (fields.insertAll moreFields)
  | body, _ => body

structure Schema where
  definitions : OrderedMap (TypeDefinition FieldMap)
  roots : RootTypes

namespace Schema

open Source (SystemDocument)

def declared (document : SystemDocument) : OrderedMap (TypeDefinition FieldMap) :=
  .ofList <| document.filterMap fun
    | .type type => some (type.name, ⟨type.name, type.body.map .ofList⟩)
    | _ => none

/-- Merges the extensions of a text into the types they extend. Those of unknown types are
dropped. -/
def extended (document : SystemDocument) (types : OrderedMap (TypeDefinition FieldMap)) :
    OrderedMap (TypeDefinition FieldMap) :=
  document.foldl (fun types definition =>
    match definition with
    | .extension extension =>
        types.modify extension.name fun type =>
          { type with body := type.body.extend extension.body }
    | _ => types) types

def builtinScalars : List String := ["String", "Int", "Float", "Boolean", "ID"]

def addScalar (types : OrderedMap (TypeDefinition FieldMap)) (name : String) :
    OrderedMap (TypeDefinition FieldMap) :=
  if types.contains name then types else types.insert name ⟨name, .scalar⟩

def withBuiltins (types : OrderedMap (TypeDefinition FieldMap)) :
    OrderedMap (TypeDefinition FieldMap) :=
  builtinScalars.foldl addScalar types

def conventionalRoots (types : OrderedMap (TypeDefinition FieldMap)) : RootTypes where
  query := root? .query
  mutation := root? .mutation
  subscription := root? .subscription
where
  root? (kind : OperationKind) : Option String :=
    match (types.find? kind.conventionalRoot).map TypeDefinition.body with
    | some (.object ..) => some kind.conventionalRoot
    | _ => none

def writtenRoots? (document : SystemDocument) : Option RootTypes :=
  document.findSome? fun
    | .schema roots => some roots
    | _ => none

def ofDocument (document : SystemDocument) : Schema :=
  let types := withBuiltins (extended document (declared document))
  ⟨types, (writtenRoots? document).getD (conventionalRoots types)⟩

def parse? (text : String) : Option Schema :=
  (SystemDocument.parse? text).map ofDocument

def definition? (schema : Schema) (name : String) : Option (TypeDefinition FieldMap) :=
  schema.definitions.find? name

def isAbstract (schema : Schema) (name : String) : Bool :=
  (schema.definition? name).any (·.body.isAbstract)

/-- The object types that list `name` among their interfaces, in definition order. -/
def implementations (schema : Schema) (name : String) : List String :=
  schema.definitions.entries.filterMap fun (_, type) =>
    match type.body with
    | .object _ interfaces => if interfaces.contains name then some type.name else none
    | _ => none

/-- The object types that a value of type `name` can have. A type that is not abstract, or not
defined, is its own only possible type. -/
def possibleTypes (schema : Schema) (name : String) : List String :=
  match (schema.definition? name).map TypeDefinition.body with
  | some (.union members) => members
  | some (.interface _) => schema.implementations name
  | _ => [name]

end Schema
end QueryShape
