import QueryShape.Proofs.InputTypes
import QueryShape.Proofs.Resolving

/-!
# Which documents are resolved

A document is resolved just if the types of its operations and variables are in order and no
selection set in it lies too deep or has an item that the schema does not allow there.
-/

namespace QueryShape

open Outcome
open Source (Document FragmentDefinition Item OperationDefinition)

/-- Items that select from the type `on`, as a selection set that lies at `depth`. -/
structure SelectionSet where
  on : String
  depth : Nat
  items : List Item

namespace Schema

/-- An item that can be in a selection set on the type `on`. What a field of a leaf type or the name
of the type selects in turn does not matter. -/
inductive Allows (schema : Schema) (on : String) : Item → Prop where
  | spread {name : String} : Allows schema on (.spread name)
  | inline {position : Position} {on? : Option String} {items : List Item}
      (hc : ∀ type ∈ on?, schema.IsComposite type) : Allows schema on (.inline position on? items)
  | typename {position : Position} {alias? : Option String} {items : List Item} :
      Allows schema on (.field position alias? typenameField items)
  | leaf {position : Position} {alias? : Option String} {name : String} {items : List Item}
      {type : TypeRef} {core : OutputCore (Selection String)}
      (hf : schema.Declares on name type) (hl : schema.IsLeaf type.core core) :
      Allows schema on (.field position alias? name items)
  | composite {position : Position} {alias? : Option String} {name : String} {items : List Item}
      {type : TypeRef} (hf : schema.Declares on name type)
      (hc : schema.IsComposite type.core) (hi : items ≠ []) :
      Allows schema on (.field position alias? name items)

/-- The selection set that an item at `depth` on the type `on` has in turn: that of an inline
fragment, or of a field of a composite type. -/
inductive Selects (schema : Schema) (on : String) (depth : Nat) : Item → SelectionSet → Prop where
  | inline {position : Position} {on? : Option String} {items : List Item} :
      Selects schema on depth (.inline position on? items) ⟨on?.getD on, depth + 1, items⟩
  | field {position : Position} {alias? : Option String} {name : String} {items : List Item}
      {type : TypeRef} (hn : name ≠ typenameField) (hf : schema.Declares on name type)
      (hc : schema.IsComposite type.core) :
      Selects schema on depth (.field position alias? name items) ⟨type.core, depth + 1, items⟩

/-- One selection set lies directly inside another. -/
def Encloses (schema : Schema) (outer inner : SelectionSet) : Prop :=
  ∃ item ∈ outer.items, schema.Selects outer.on outer.depth item inner

/-- Neither the selection set nor one inside of it lies too deep or has an item that is not
allowed. -/
def Fits (schema : Schema) (maxDepth : Nat) (set : SelectionSet) : Prop :=
  ∀ inner, Relation.ReflTransGen schema.Encloses set inner →
    inner.depth ≤ maxDepth ∧ ∀ item ∈ inner.items, schema.Allows inner.on item

/-- All that the schema and the cap on the depth ask of a document. A definition that a later one of
its name replaces is no exception. -/
structure WellFormed (schema : Schema) (maxDepth : Nat) (document : Document) : Prop where
  operations : ∀ definition ∈ document.operations, ∃ root,
    schema.roots.ofKind definition.kind = some root ∧ schema.IsComposite root ∧
      schema.Fits maxDepth ⟨root, 1, definition.items⟩
  vars : ∀ definition ∈ document.operations, ∀ var ∈ definition.vars, schema.Expands var.type.core
  fragments : ∀ definition ∈ document.fragments, schema.IsComposite definition.on ∧
    schema.Fits maxDepth ⟨definition.on, 1, definition.items⟩

variable {schema : Schema} {maxDepth : Nat}

/-! ### Acceptance -/

def ItemFits (schema : Schema) (maxDepth : Nat) (on : String) (depth : Nat) (item : Item) : Prop :=
  schema.Allows on item ∧ ∀ inner, schema.Selects on depth item inner → schema.Fits maxDepth inner

theorem fits_iff {set : SelectionSet} :
    schema.Fits maxDepth set ↔ set.depth ≤ maxDepth ∧
      ∀ item ∈ set.items, schema.ItemFits maxDepth set.on set.depth item := by
  constructor
  · intro h
    obtain ⟨hdepth, hallows⟩ := h set .refl
    refine ⟨hdepth, fun item hi => ⟨hallows item hi, fun inner hs last hl => ?_⟩⟩
    exact h last (.head ⟨item, hi, hs⟩ hl)
  · rintro ⟨hdepth, hitems⟩ last hl
    rcases hl.cases_head with rfl | ⟨inner, ⟨item, hi, hs⟩, hl⟩
    · exact ⟨hdepth, fun item hi => (hitems item hi).1⟩
    · exact (hitems item hi).2 inner hs last hl

variable {on : String} {depth : Nat} {position : Position} {alias? : Option String} {name : String}
  {items : List Item}

theorem itemFits_spread : schema.ItemFits maxDepth on depth (.spread name) :=
  ⟨.spread, fun _ hs => by cases hs⟩

theorem itemFits_inline {on? : Option String} :
    schema.ItemFits maxDepth on depth (.inline position on? items) ↔
      (∀ type ∈ on?, schema.IsComposite type) ∧
        schema.Fits maxDepth ⟨on?.getD on, depth + 1, items⟩ := by
  constructor
  · rintro ⟨hallows, hinner⟩
    cases hallows with
    | inline hc => exact ⟨hc, hinner _ .inline⟩
  · rintro ⟨hc, hfits⟩
    refine ⟨.inline hc, fun _ hs => ?_⟩
    cases hs
    exact hfits

theorem itemFits_typename :
    schema.ItemFits maxDepth on depth (.field position alias? typenameField items) := by
  refine ⟨.typename, fun _ hs => ?_⟩
  cases hs with
  | field hn => exact absurd rfl hn

theorem not_itemFits_of_undeclared (hn : name ≠ typenameField)
    (hf : ∀ type, ¬ schema.Declares on name type) :
    ¬ schema.ItemFits maxDepth on depth (.field position alias? name items) := by
  rintro ⟨hallows, _⟩
  cases hallows with
  | typename => exact hn rfl
  | leaf hs | composite hs => exact hf _ hs

theorem itemFits_field {type : TypeRef} (hn : name ≠ typenameField)
    (hf : schema.Declares on name type) :
    schema.ItemFits maxDepth on depth (.field position alias? name items) ↔
      (∃ core, schema.IsLeaf type.core core) ∨ schema.IsComposite type.core ∧ items ≠ [] ∧
        schema.Fits maxDepth ⟨type.core, depth + 1, items⟩ := by
  constructor
  · rintro ⟨hallows, hinner⟩
    cases hallows with
    | typename => exact absurd rfl hn
    | leaf hs hl =>
        cases hf.unique hs
        exact .inl ⟨_, hl⟩
    | composite hs hc hi =>
        cases hf.unique hs
        exact .inr ⟨hc, hi, hinner _ (.field hn hf hc)⟩
  · rintro (⟨core, hl⟩ | ⟨hc, hi, hfits⟩)
    · refine ⟨.leaf hf hl, fun _ hs => ?_⟩
      cases hs with
      | field _ hs hc =>
          cases hf.unique hs
          exact absurd hc hl.not_isComposite
    · refine ⟨.composite hf hc hi, fun _ hs => ?_⟩
      cases hs with
      | field _ hs _ =>
          cases hf.unique hs
          exact hfits

mutual

/-- An item is resolved just if it fits. -/
theorem exists_resolveItem_eq_ok_iff (on : String) (depth : Nat) (item : Item) :
    (∃ part, schema.resolveItem maxDepth (schema.blank on) depth item = .ok part) ↔
      schema.ItemFits maxDepth on depth item := by
  match item with
  | .spread name =>
      simp only [resolveItem_spread_eq_ok_iff, exists_eq', itemFits_spread]
  | .inline position on? items =>
      have ih := exists_resolveItems_eq_ok_iff (on?.getD on) (depth + 1) items
      simp only [resolveItem_inline_eq_ok_iff, itemFits_inline, fits_iff, ← ih]
      constructor
      · rintro ⟨_, hc, hd, branch, hb, _⟩
        exact ⟨hc, hd, branch, hb⟩
      · rintro ⟨hc, hd, branch, hb⟩
        exact ⟨_, hc, hd, branch, hb, rfl⟩
  | .field position alias? name items =>
      by_cases hn : name = typenameField
      · subst hn
        simp only [resolveItem_typename_eq_ok_iff, exists_eq', itemFits_typename]
      · simp only [resolveItem_field_eq_ok_iff hn]
        by_cases hdeclared : ∃ type, schema.Declares on name type
        · obtain ⟨type, hf⟩ := hdeclared
          have ih := exists_resolveItems_eq_ok_iff type.core (depth + 1) items
          rw [itemFits_field hn hf, fits_iff, ← ih]
          constructor
          · rintro ⟨_, _, core, hf', hl | ⟨hc, hi, hd, nested, hn, _⟩, _⟩
            · cases hf.unique hf'
              exact .inl ⟨core, hl⟩
            · cases hf.unique hf'
              exact .inr ⟨hc, hi, hd, nested, hn⟩
          · rintro (⟨core, hl⟩ | ⟨hc, hi, hd, nested, hn⟩)
            · exact ⟨_, type, core, hf, .inl hl, rfl⟩
            · exact ⟨_, type, _, hf, .inr ⟨hc, hi, hd, nested, hn, rfl⟩, rfl⟩
        · have hf (type : TypeRef) : ¬ schema.Declares on name type := fun h =>
            hdeclared ⟨type, h⟩
          simp [not_itemFits_of_undeclared hn hf, hf]

theorem exists_resolveItems_eq_ok_iff (on : String) (depth : Nat) (items : List Item) :
    (∃ selection, schema.resolveItems maxDepth (schema.blank on) depth items = .ok selection) ↔
      ∀ item ∈ items, schema.ItemFits maxDepth on depth item := by
  match items with
  | [] => simp [resolveItems]
  | item :: rest =>
      rw [List.forall_mem_cons, ← exists_resolveItem_eq_ok_iff on depth item,
        ← exists_resolveItems_eq_ok_iff on depth rest]
      simp only [resolveItems, bind_eq_ok, pure_eq_ok]
      constructor
      · rintro ⟨_, part, hp, selection, hr, _⟩
        exact ⟨⟨part, hp⟩, selection, hr⟩
      · rintro ⟨⟨part, hp⟩, selection, hr⟩
        exact ⟨_, part, hp, selection, hr, rfl⟩

end

theorem exists_resolveRoot_eq_ok_iff (position : Position) {type : String} {items : List Item} :
    (∃ selection, schema.resolveRoot maxDepth type position items = .ok selection) ↔
      schema.IsComposite type ∧ schema.Fits maxDepth ⟨type, 1, items⟩ := by
  simp only [resolveRoot_eq_ok_iff, fits_iff, ← exists_resolveItems_eq_ok_iff]
  constructor
  · rintro ⟨selection, hc, hd, hs⟩
    exact ⟨hc, hd, selection, hs⟩
  · rintro ⟨hc, hd, selection, hs⟩
    exact ⟨selection, hc, hd, hs⟩

theorem exists_resolveVars_eq_ok_iff {declared : List Source.VariableDefinition} :
    (∃ vars, schema.resolveVars declared = .ok vars) ↔
      ∀ var ∈ declared, schema.Expands var.type.core := by
  unfold resolveVars
  rw [exists_mapM_eq_ok_iff]
  refine forall₂_congr fun var _ => ?_
  rw [← exists_expandInput_eq_ok_iff_expands var.position]
  simp only [bind_eq_ok, pure_eq_ok, inputType]
  constructor
  · rintro ⟨_, _, ⟨core, hc, _⟩, _⟩
    exact ⟨core, hc⟩
  · rintro ⟨core, hc⟩
    exact ⟨_, _, ⟨core, hc, rfl⟩, rfl⟩

theorem exists_resolvesOperation_iff {definition : OperationDefinition} :
    (∃ operation, schema.ResolvesOperation maxDepth definition operation) ↔
      (∃ root, schema.roots.ofKind definition.kind = some root ∧ schema.IsComposite root ∧
        schema.Fits maxDepth ⟨root, 1, definition.items⟩) ∧
      ∀ var ∈ definition.vars, schema.Expands var.type.core := by
  rw [← exists_resolveVars_eq_ok_iff]
  simp only [resolvesOperation_iff, ← exists_resolveRoot_eq_ok_iff definition.position]
  constructor
  · rintro ⟨_, root, vars, selection, hroot, hv, hs, _⟩
    exact ⟨⟨root, hroot, selection, hs⟩, vars, hv⟩
  · rintro ⟨⟨root, hroot, selection, hs⟩, vars, hv⟩
    exact ⟨_, root, vars, selection, hroot, hv, hs, rfl⟩

theorem exists_resolvesFragment_iff {definition : FragmentDefinition} :
    (∃ entry, schema.ResolvesFragment maxDepth definition entry) ↔
      schema.IsComposite definition.on ∧
        schema.Fits maxDepth ⟨definition.on, 1, definition.items⟩ := by
  rw [← exists_resolveRoot_eq_ok_iff definition.position]
  constructor
  · rintro ⟨⟨_, selection⟩, _, hs⟩
    exact ⟨selection, hs⟩
  · rintro ⟨selection, hs⟩
    exact ⟨(definition.name, selection), rfl, hs⟩

theorem exists_resolve_eq_ok_iff {document : Document} :
    (∃ resolved, schema.resolve maxDepth document = .ok resolved) ↔
      schema.WellFormed maxDepth document := by
  have hoperations := exists_forall₂_iff (schema.ResolvesOperation maxDepth) document.operations
  have hfragments := exists_forall₂_iff (schema.ResolvesFragment maxDepth) document.fragments
  simp only [exists_resolvesOperation_iff] at hoperations
  simp only [exists_resolvesFragment_iff] at hfragments
  simp only [resolve_eq_ok_iff]
  constructor
  · rintro ⟨_, operations, entries, ho, hf, _⟩
    have ho := hoperations.mp ⟨operations, ho⟩
    exact ⟨fun definition hd => (ho definition hd).1, fun definition hd => (ho definition hd).2,
      hfragments.mp ⟨entries, hf⟩⟩
  · rintro ⟨ho, hv, hf⟩
    obtain ⟨operations, ho⟩ := hoperations.mpr fun definition hd =>
      ⟨ho definition hd, hv definition hd⟩
    obtain ⟨entries, hf⟩ := hfragments.mpr hf
    exact ⟨_, operations, entries, ho, hf, rfl⟩

/-- What is written under the name of a type is not looked at. -/
example : (petSchema.resolve 1 [.operation ⟨⟨1, 1⟩, .query, none, [],
    [.field ⟨1, 3⟩ none "__typename" [.field ⟨1, 16⟩ none "unheard" []]]⟩]).isOk = true := by cbv

/-- A definition that is replaced later is looked at. -/
example : petSchema.resolve 2 (.fragment ⟨⟨1, 1⟩, "Mood", "Mood", []⟩ :: petDocument) =
    .error (.notComposite "Mood" ⟨1, 1⟩) := by cbv

end Schema
end QueryShape
