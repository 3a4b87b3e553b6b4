import QueryShape.Proofs.FirstOccurrences
import QueryShape.Proofs.LinkedParts
import QueryShape.Proofs.SchemaTyping

/-!
# Resolving, definition by definition

Each definition is resolved on its own, to an operation or to an entry of the table of fragments. A
resolved selection spreads only what its items spread.
-/

namespace QueryShape

open Outcome

namespace Source

namespace Document

def operations (document : Document) : List OperationDefinition :=
  document.filterMap fun
    | .operation definition => some definition
    | .fragment _ => none

def fragments (document : Document) : List FragmentDefinition :=
  document.filterMap fun
    | .operation _ => none
    | .fragment definition => some definition

variable (document rest : Document)

@[simp] theorem operations_nil : operations [] = [] := rfl

@[simp] theorem operations_operation (definition : OperationDefinition) :
    operations (.operation definition :: rest) = definition :: operations rest := rfl

@[simp] theorem operations_fragment (definition : FragmentDefinition) :
    operations (.fragment definition :: rest) = operations rest := rfl

@[simp] theorem fragments_nil : fragments [] = [] := rfl

@[simp] theorem fragments_operation (definition : OperationDefinition) :
    fragments (.operation definition :: rest) = fragments rest := rfl

@[simp] theorem fragments_fragment (definition : FragmentDefinition) :
    fragments (.fragment definition :: rest) = definition :: fragments rest := rfl

@[simp] theorem operations_append :
    operations (document ++ rest) = document.operations ++ operations rest :=
  List.filterMap_append

@[simp] theorem fragments_append :
    fragments (document ++ rest) = document.fragments ++ fragments rest :=
  List.filterMap_append

end Document

mutual

/-- The names of the fragments that are spread in an item, at any depth. -/
def Item.spreads : Item → List String
  | .field _ _ _ items => Item.spreadsIn items
  | .inline _ _ items => Item.spreadsIn items
  | .spread name => [name]

def Item.spreadsIn : List Item → List String
  | [] => []
  | item :: rest => item.spreads ++ Item.spreadsIn rest

end

end Source

open Source (Item Document OperationDefinition FragmentDefinition)

namespace Schema

variable (schema : Schema) (maxDepth : Nat)

/-- The definition of an operation is resolved to this operation. -/
def ResolvesOperation (definition : OperationDefinition)
    (operation : Operation (Selection String)) : Prop :=
  schema.resolveOperation maxDepth definition = .ok operation

def resolveVars (declared : List Source.VariableDefinition) : Typing (List (String × InputType)) :=
  declared.mapM fun var => do return (var.name, ← schema.inputType var.position var.type)

theorem resolvesOperation_iff {definition : OperationDefinition}
    {operation : Operation (Selection String)} :
    schema.ResolvesOperation maxDepth definition operation ↔ ∃ root vars selection,
      schema.roots.ofKind definition.kind = some root ∧
      schema.resolveVars definition.vars = .ok vars ∧
      schema.resolveRoot maxDepth root definition.position definition.items = .ok selection ∧
      ⟨definition.kind, definition.name?, selection, vars⟩ = operation := by
  unfold ResolvesOperation resolveOperation resolveVars
  cases schema.roots.ofKind definition.kind with
  | none => simp
  | some root =>
      simp only [bind_eq_ok, pure_eq_ok, Option.some.injEq, exists_and_left, exists_eq_left']

def ResolvesFragment (definition : FragmentDefinition) (entry : String × Selection String) : Prop :=
  entry.1 = definition.name ∧
    schema.resolveRoot maxDepth definition.on definition.position definition.items = .ok entry.2

private theorem foldlM_resolveDefinition_eq_ok_iff (document : Document) (start : Resolved)
    {resolved : Resolved} :
    document.foldlM (schema.resolveDefinition maxDepth) start = .ok resolved ↔
      ∃ operations entries,
        List.Forall₂ (schema.ResolvesOperation maxDepth) document.operations operations ∧
        List.Forall₂ (schema.ResolvesFragment maxDepth) document.fragments entries ∧
        ⟨start.operations ++ operations, start.fragments.insertAll entries⟩ = resolved := by
  induction document generalizing start with
  | nil => simp [OrderedMap.insertAll]
  | cons definition rest ih =>
      rw [List.foldlM_cons, bind_eq_ok]
      simp only [ih]
      cases definition with
      | operation definition =>
          simp only [resolveDefinition, bind_eq_ok, pure_eq_ok, Document.operations_operation,
            Document.fragments_operation, List.forall₂_cons_left_iff]
          constructor
          · rintro ⟨_, ⟨operation, ho, rfl⟩, operations, entries, hos, hes, rfl⟩
            exact ⟨operation :: operations, entries, ⟨operation, operations, ho, hos, rfl⟩, hes,
              by simp⟩
          · rintro ⟨_, entries, ⟨operation, operations, ho, hos, rfl⟩, hes, rfl⟩
            exact ⟨_, ⟨operation, ho, rfl⟩, operations, entries, hos, hes, by simp⟩
      | fragment definition =>
          simp only [resolveDefinition, bind_eq_ok, pure_eq_ok, Document.operations_fragment,
            Document.fragments_fragment, List.forall₂_cons_left_iff]
          constructor
          · rintro ⟨_, ⟨selection, hs, rfl⟩, operations, entries, hos, hes, rfl⟩
            exact ⟨operations, (definition.name, selection) :: entries, hos,
              ⟨_, entries, ⟨rfl, hs⟩, hes, rfl⟩, rfl⟩
          · rintro ⟨operations, _, hos, ⟨⟨_, selection⟩, entries, ⟨rfl, hs⟩, hes, rfl⟩, rfl⟩
            exact ⟨_, ⟨selection, hs, rfl⟩, operations, entries, hos, hes, rfl⟩

/-- A document is resolved just if each of its definitions is. -/
theorem resolve_eq_ok_iff {document : Document} {resolved : Resolved} :
    schema.resolve maxDepth document = .ok resolved ↔ ∃ operations entries,
      List.Forall₂ (schema.ResolvesOperation maxDepth) document.operations operations ∧
      List.Forall₂ (schema.ResolvesFragment maxDepth) document.fragments entries ∧
      ⟨operations, .ofList entries⟩ = resolved := by
  simpa [resolve, OrderedMap.ofList] using
    schema.foldlM_resolveDefinition_eq_ok_iff maxDepth document ⟨[], ∅⟩

end Schema

/-! ### Spreads -/

namespace Part

def references {ρ : Type} : Part ρ → List ρ
  | .field selected => (selected.nested?.map Selection.references).getD []
  | .branch inner => inner.references
  | .spread name => [name]

end Part

theorem Selection.mem_references_cons {ρ : Type} {part : Part ρ} {selection : Selection ρ}
    {name : ρ} (h : name ∈ (selection.cons part).references) :
    name ∈ part.references ∨ name ∈ selection.references := by
  rw [references_eq] at h ⊢
  cases part with
  | field selected =>
      simp only [cons, List.flatMap_cons, List.append_assoc] at h
      exact List.mem_append.mp h
  | branch inner =>
      simp only [cons, List.flatMap_cons, List.mem_append] at h
      simp only [Part.references, List.mem_append]
      tauto
  | spread other =>
      simp only [cons, List.mem_append, List.mem_cons] at h
      simp only [Part.references, List.mem_append, List.mem_singleton]
      tauto

namespace Schema

variable {schema : Schema} {maxDepth : Nat}

theorem references_blank (on : String) : (schema.blank on).references = [] := by
  simp [blank, Selection.nothing, Selection.references_eq]

theorem IsLeaf.nested?_eq_none {name key : String} {wrapping : List Wrapper}
    {core : OutputCore (Selection String)} (h : schema.IsLeaf name core) :
    Field.nested? ⟨key, wrapping, core⟩ = none := by
  cases h with
  | scalar | enum => rfl

mutual

/-- What is spread in a resolved part is spread in the item; what is written under a leaf is not
looked at, so the item can spread more. -/
theorem mem_spreads_of_resolveItem {on : String} {depth : Nat} {item : Item} {part : Part String}
    (h : schema.resolveItem maxDepth (schema.blank on) depth item = .ok part) :
    ∀ name ∈ part.references, name ∈ item.spreads := by
  match item with
  | .field position alias? name items =>
      by_cases hn : name = typenameField
      · subst hn
        cases resolveItem_typename_eq_ok_iff.mp h
        simp [Part.references, Field.nested?]
      · obtain ⟨type, core, _, hl | ⟨_, _, _, nested, hs, rfl⟩, rfl⟩ :=
          (resolveItem_field_eq_ok_iff hn).mp h
        · simp [Part.references, hl.nested?_eq_none]
        · exact mem_spreadsIn_of_resolveItems hs
  | .inline position on? items =>
      obtain ⟨_, _, branch, hb, rfl⟩ := resolveItem_inline_eq_ok_iff.mp h
      exact mem_spreadsIn_of_resolveItems hb
  | .spread name =>
      cases resolveItem_spread_eq_ok_iff.mp h
      exact fun _ hn => hn

theorem mem_spreadsIn_of_resolveItems {on : String} {depth : Nat} {items : List Item}
    {selection : Selection String}
    (h : schema.resolveItems maxDepth (schema.blank on) depth items = .ok selection) :
    ∀ name ∈ selection.references, name ∈ Item.spreadsIn items := by
  match items with
  | [] =>
      cases pure_eq_ok.mp h
      simp [references_blank]
  | item :: rest =>
      simp only [resolveItems, bind_eq_ok, pure_eq_ok] at h
      obtain ⟨part, hp, selection, hr, rfl⟩ := h
      intro name hn
      rw [Item.spreadsIn, List.mem_append]
      rcases Selection.mem_references_cons hn with hn | hn
      · exact .inl (mem_spreads_of_resolveItem hp name hn)
      · exact .inr (mem_spreadsIn_of_resolveItems hr name hn)

end

theorem mem_spreadsIn_of_resolveRoot {type : String} {position : Position} {items : List Item}
    {selection : Selection String}
    (h : schema.resolveRoot maxDepth type position items = .ok selection) :
    ∀ name ∈ selection.references, name ∈ Item.spreadsIn items :=
  mem_spreadsIn_of_resolveItems (resolveRoot_eq_ok_iff.mp h).2.2

theorem mem_spreadsIn_of_resolvesOperation {definition : OperationDefinition}
    {operation : Operation (Selection String)}
    (h : schema.ResolvesOperation maxDepth definition operation) :
    ∀ name ∈ operation.selection.references, name ∈ Item.spreadsIn definition.items := by
  obtain ⟨root, vars, selection, _, _, hs, rfl⟩ := (schema.resolvesOperation_iff maxDepth).mp h
  exact mem_spreadsIn_of_resolveRoot hs

end Schema
end QueryShape
