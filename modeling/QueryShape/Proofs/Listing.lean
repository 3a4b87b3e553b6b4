import QueryShape.Proofs.Acceptance
import QueryShape.Proofs.Independence
import QueryShape.Proofs.VariableTypes

/-!
# What a resolved document lists

A resolved document has an entry for each operation, fragment, field, inline fragment and spread of
the document, with its type. This leaves no choice.
-/

namespace QueryShape

open Outcome
open Source (Document FragmentDefinition Item OperationDefinition)

/-- A field as it is written at `depth` on the type `on`, with its response key. -/
structure WrittenField where
  on : String
  depth : Nat
  key : String
  name : String
  items : List Item

namespace SelectionSet

def fields (set : SelectionSet) : List WrittenField :=
  set.items.filterMap fun
    | .field _ alias? name items => some ⟨set.on, set.depth, alias?.getD name, name, items⟩
    | .inline .. | .spread _ => none

def branches (set : SelectionSet) : List SelectionSet :=
  set.items.filterMap fun
    | .inline _ on? items => some ⟨on?.getD set.on, set.depth + 1, items⟩
    | .field .. | .spread _ => none

def spreads (set : SelectionSet) : List String :=
  set.items.filterMap fun
    | .spread name => some name
    | .field .. | .inline .. => none

end SelectionSet

namespace Schema

mutual

/-- The selection has all that its selection set has, each sort in order: fields, branches for the
inline fragments, and the names of the fragments that are spread. -/
inductive Lists (schema : Schema) : SelectionSet → Selection String → Prop where
  | mk {set : SelectionSet} {selection : Selection String} (hon : selection.on = set.on)
      (hpossible : selection.possible = schema.possibleTypes set.on)
      (hfields : List.Forall₂ (ListsField schema) set.fields selection.fields)
      (hbranches : List.Forall₂ (Lists schema) set.branches selection.branches)
      (hspreads : selection.spreads = set.spreads) : Lists schema set selection

/-- The field has the response key and the type of a written one: the name of a type, or the type
that is declared for the field, under which a composite type lists what is selected from it. -/
inductive ListsField (schema : Schema) : WrittenField → Field (Selection String) → Prop where
  | typename {on key : String} {depth : Nat} {items : List Item} :
      ListsField schema ⟨on, depth, key, typenameField, items⟩ ⟨key, { core := .typename }⟩
  | leaf {on key name : String} {depth : Nat} {items : List Item} {type : TypeRef}
      {core : OutputCore (Selection String)} (hn : name ≠ typenameField)
      (hf : schema.Declares on name type) (hl : schema.IsLeaf type.core core) :
      ListsField schema ⟨on, depth, key, name, items⟩ ⟨key, type.wrapping, core⟩
  | composite {on key name : String} {depth : Nat} {items : List Item} {type : TypeRef}
      {nested : Selection String} (hn : name ≠ typenameField)
      (hf : schema.Declares on name type) (hc : schema.IsComposite type.core)
      (hs : Lists schema ⟨type.core, depth + 1, items⟩ nested) :
      ListsField schema ⟨on, depth, key, name, items⟩ ⟨key, type.wrapping, .selection nested⟩

end

inductive ListsItem (schema : Schema) (on : String) (depth : Nat) : Item → Part String → Prop where
  | field {position : Position} {alias? : Option String} {name : String} {items : List Item}
      {field : Field (Selection String)}
      (h : schema.ListsField ⟨on, depth, alias?.getD name, name, items⟩ field) :
      ListsItem schema on depth (.field position alias? name items) (.field field)
  | branch {position : Position} {on? : Option String} {items : List Item}
      {branch : Selection String} (h : schema.Lists ⟨on?.getD on, depth + 1, items⟩ branch) :
      ListsItem schema on depth (.inline position on? items) (.branch branch)
  | spread {name : String} : ListsItem schema on depth (.spread name) (.spread name)

/-- An operation as it is defined: with its kind and name, a selection from the root type, and the
types of its variables. -/
structure ListsOperation (schema : Schema) (definition : OperationDefinition)
    (operation : Operation (Selection String)) : Prop where
  kind : operation.kind = definition.kind
  name? : operation.name? = definition.name?
  selection : ∃ root, schema.roots.ofKind definition.kind = some root ∧
    schema.Lists ⟨root, 1, definition.items⟩ operation.selection
  vars : List.Forall₂ schema.StandsForVariable definition.vars operation.vars

/-- All operations in order, and an entry for each name of a fragment, in the order in which the
names are first defined and with what is last defined under the name. -/
structure ListsDocument (schema : Schema) (document : Document) (resolved : Resolved) : Prop where
  operations : List.Forall₂ schema.ListsOperation document.operations resolved.operations
  names : resolved.fragments.keys = (document.fragments.map (·.name)).eraseDups
  fragments : ∀ name selection, resolved.fragments.find? name = some selection →
    ∃ definition, document.fragment? name = some definition ∧
      schema.Lists ⟨definition.on, 1, definition.items⟩ selection

variable {schema : Schema} {maxDepth : Nat} {on : String} {depth : Nat}

/-! ### Item by item -/

theorem lists_nil_iff {selection : Selection String} :
    schema.Lists ⟨on, depth, []⟩ selection ↔ schema.blank on = selection := by
  constructor
  · rintro ⟨hon, hpossible, hfields, hbranches, hspreads⟩
    obtain ⟨_, _, _, _, _⟩ := selection
    cases hfields
    cases hbranches
    cases hon
    cases hpossible
    cases hspreads
    rfl
  · rintro rfl
    exact .mk rfl rfl .nil .nil rfl

theorem lists_cons_iff {item : Item} {rest : List Item} {selection : Selection String} :
    schema.Lists ⟨on, depth, item :: rest⟩ selection ↔ ∃ part others,
      schema.ListsItem on depth item part ∧ schema.Lists ⟨on, depth, rest⟩ others ∧
        others.cons part = selection := by
  constructor
  · rintro ⟨hon, hpossible, hfields, hbranches, hspreads⟩
    obtain ⟨_, _, fields, branches, spreads⟩ := selection
    cases item with
    | field position alias? name items =>
        obtain ⟨field, others, hf, hr, rfl⟩ := List.forall₂_cons_left_iff.mp hfields
        exact ⟨.field field, ⟨_, _, others, branches, spreads⟩, .field hf,
          .mk hon hpossible hr hbranches hspreads, rfl⟩
    | inline position on? items =>
        obtain ⟨branch, others, hb, hr, rfl⟩ := List.forall₂_cons_left_iff.mp hbranches
        exact ⟨.branch branch, ⟨_, _, fields, others, spreads⟩, .branch hb,
          .mk hon hpossible hfields hr hspreads, rfl⟩
    | spread name =>
        cases hspreads
        exact ⟨.spread name, ⟨_, _, fields, branches, SelectionSet.spreads ⟨on, depth, rest⟩⟩,
          .spread, .mk hon hpossible hfields hbranches rfl, rfl⟩
  · rintro ⟨part, others, hi, ⟨hon, hpossible, hfields, hbranches, hspreads⟩, rfl⟩
    cases hi with
    | field hf => exact .mk hon hpossible (.cons hf hfields) hbranches hspreads
    | branch hb => exact .mk hon hpossible hfields (.cons hb hbranches) hspreads
    | spread => exact .mk hon hpossible hfields hbranches (congrArg _ hspreads)

mutual

theorem listsItem_of_resolveItem_eq_ok {on : String} {depth : Nat} {item : Item}
    {part : Part String} (h : schema.resolveItem maxDepth (schema.blank on) depth item = .ok part) :
    schema.ListsItem on depth item part := by
  match item with
  | .spread name =>
      cases resolveItem_spread_eq_ok_iff.mp h
      exact .spread
  | .inline position on? items =>
      obtain ⟨_, _, branch, hb, rfl⟩ := resolveItem_inline_eq_ok_iff.mp h
      exact .branch (lists_of_resolveItems_eq_ok hb)
  | .field position alias? name items =>
      by_cases hn : name = typenameField
      · subst hn
        cases resolveItem_typename_eq_ok_iff.mp h
        exact .field .typename
      · obtain ⟨type, core, hf, hl | ⟨hc, _, _, nested, hs, rfl⟩, rfl⟩ :=
          (resolveItem_field_eq_ok_iff hn).mp h
        · exact .field (.leaf hn hf hl)
        · exact .field (.composite hn hf hc (lists_of_resolveItems_eq_ok hs))

theorem lists_of_resolveItems_eq_ok {on : String} {depth : Nat} {items : List Item}
    {selection : Selection String}
    (h : schema.resolveItems maxDepth (schema.blank on) depth items = .ok selection) :
    schema.Lists ⟨on, depth, items⟩ selection := by
  match items with
  | [] =>
      rw [resolveItems, pure_eq_ok] at h
      exact lists_nil_iff.mpr h
  | item :: rest =>
      simp only [resolveItems, bind_eq_ok, pure_eq_ok] at h
      obtain ⟨part, hp, others, hr, rfl⟩ := h
      exact lists_cons_iff.mpr ⟨part, others, listsItem_of_resolveItem_eq_ok hp,
        lists_of_resolveItems_eq_ok hr, rfl⟩

end

theorem lists_of_resolveRoot_eq_ok {type : String} {position : Position} {items : List Item}
    {selection : Selection String}
    (h : schema.resolveRoot maxDepth type position items = .ok selection) :
    schema.Lists ⟨type, 1, items⟩ selection :=
  lists_of_resolveItems_eq_ok (resolveRoot_eq_ok_iff.mp h).2.2

/-! ### No choice -/

mutual

theorem ListsItem.unique {on : String} {depth : Nat} {item : Item} {part part' : Part String}
    (h : schema.ListsItem on depth item part) (h' : schema.ListsItem on depth item part') :
    part = part' := by
  match item, h, h' with
  | .spread name, .spread, .spread => rfl
  | .inline position on? items, .branch hb, .branch hb' => rw [Lists.unique hb hb']
  | .field position alias? name items, .field hf, .field hf' =>
      -- No type is both a leaf and composite, so both fields are listed by the same rule.
      cases hf with
      | typename =>
          cases hf' with
          | typename => rfl
          | leaf hn | composite hn => exact absurd rfl hn
      | leaf hn hf hl =>
          cases hf' with
          | typename => exact absurd rfl hn
          | leaf _ hf' hl' =>
              cases hf.unique hf'
              rw [hl.unique hl']
          | composite _ hf' hc' =>
              cases hf.unique hf'
              exact absurd hc' hl.not_isComposite
      | composite hn hf hc hs =>
          cases hf' with
          | typename => exact absurd rfl hn
          | leaf _ hf' hl' =>
              cases hf.unique hf'
              exact absurd hc hl'.not_isComposite
          | composite _ hf' _ hs' =>
              cases hf.unique hf'
              rw [Lists.unique hs hs']

theorem Lists.unique {on : String} {depth : Nat} {items : List Item}
    {selection selection' : Selection String} (h : schema.Lists ⟨on, depth, items⟩ selection)
    (h' : schema.Lists ⟨on, depth, items⟩ selection') : selection = selection' := by
  match items with
  | [] => rw [← lists_nil_iff.mp h, ← lists_nil_iff.mp h']
  | item :: rest =>
      obtain ⟨part, others, hi, hr, rfl⟩ := lists_cons_iff.mp h
      obtain ⟨part', others', hi', hr', rfl⟩ := lists_cons_iff.mp h'
      rw [ListsItem.unique hi hi', Lists.unique hr hr']

end

/-! ### Documents -/

theorem listsOperation_of_resolvesOperation {definition : OperationDefinition}
    {operation : Operation (Selection String)}
    (h : schema.ResolvesOperation maxDepth definition operation) :
    schema.ListsOperation definition operation := by
  have hvars := standsForVariable_of_resolvesOperation h
  obtain ⟨root, vars, selection, hroot, _, hs, rfl⟩ := (schema.resolvesOperation_iff maxDepth).mp h
  exact ⟨rfl, rfl, ⟨root, hroot, lists_of_resolveRoot_eq_ok hs⟩, hvars⟩

theorem listsDocument_of_resolve_eq_ok {document : Document} {resolved : Resolved}
    (h : schema.resolve maxDepth document = .ok resolved) :
    schema.ListsDocument document resolved := by
  obtain ⟨operations, entries, ho, hf, rfl⟩ := (schema.resolve_eq_ok_iff maxDepth).mp h
  refine ⟨ho.imp fun _ _ => listsOperation_of_resolvesOperation, ?_, fun name selection hs => ?_⟩
  · have hnames : document.fragments.map (·.name) = entries.map Prod.fst :=
      map_eq_map_of_forall₂ hf fun _ _ hentry => hentry.1.symm
    rw [OrderedMap.keys_ofList, hnames]
  · obtain ⟨definition, hd, _, hroot⟩ := exists_fragment?_of_find? hf hs
    exact ⟨definition, hd, lists_of_resolveRoot_eq_ok hroot⟩

theorem ListsOperation.unique {definition : OperationDefinition}
    {operation operation' : Operation (Selection String)}
    (h : schema.ListsOperation definition operation)
    (h' : schema.ListsOperation definition operation') : operation = operation' := by
  obtain ⟨kind, name?, selection, vars⟩ := operation
  obtain ⟨kind', name?', selection', vars'⟩ := operation'
  obtain ⟨rfl, rfl, ⟨root, hroot, hs⟩, hv⟩ := h
  obtain ⟨hkind, hname, ⟨root', hroot', hs'⟩, hv'⟩ := h'
  cases hkind
  cases hname
  cases hroot.symm.trans hroot'
  cases Lists.unique hs hs'
  have hunique : Relator.RightUnique schema.StandsForVariable :=
    fun _ _ _ => StandsForVariable.unique
  cases hunique.forall₂ hv hv'
  rfl

theorem ListsDocument.find?_eq_some {document : Document} {resolved resolved' : Resolved}
    (h : schema.ListsDocument document resolved) (h' : schema.ListsDocument document resolved')
    {name : String} {selection : Selection String}
    (hf : resolved.fragments.find? name = some selection) :
    resolved'.fragments.find? name = some selection := by
  have hname := OrderedMap.mem_keys_of_find? hf
  rw [h.names, ← h'.names] at hname
  obtain ⟨selection', hf'⟩ := OrderedMap.mem_keys_iff.mp hname
  obtain ⟨definition, hd, hs⟩ := h.fragments name selection hf
  obtain ⟨definition', hd', hs'⟩ := h'.fragments name selection' hf'
  cases hd.symm.trans hd'
  rw [hf', Lists.unique hs' hs]

theorem ListsDocument.unique {document : Document} {resolved resolved' : Resolved}
    (h : schema.ListsDocument document resolved) (h' : schema.ListsDocument document resolved') :
    resolved = resolved' := by
  have hunique : Relator.RightUnique schema.ListsOperation := fun _ _ _ => ListsOperation.unique
  have hoperations := hunique.forall₂ h.operations h'.operations
  have hfragments : resolved.fragments = resolved'.fragments :=
    OrderedMap.eq_of_find? (h.names.trans h'.names.symm) fun _ =>
      Option.ext fun _ => ⟨h.find?_eq_some h', h'.find?_eq_some h⟩
  obtain ⟨operations, fragments⟩ := resolved
  cases hoperations
  cases hfragments
  rfl

end Schema

/-- A document is resolved just if it is well-formed, and then to the one resolved document that
lists it. -/
theorem Schema.resolve_eq_ok_iff_wellFormed (schema : Schema) (maxDepth : Nat)
    (document : Document) :
    ((∃ resolved, schema.resolve maxDepth document = .ok resolved) ↔
      schema.WellFormed maxDepth document) ∧
    ∀ resolved, schema.resolve maxDepth document = .ok resolved ↔
      schema.WellFormed maxDepth document ∧ schema.ListsDocument document resolved := by
  refine ⟨exists_resolve_eq_ok_iff, fun resolved => ⟨fun h => ?_, fun ⟨hw, hl⟩ => ?_⟩⟩
  · exact ⟨exists_resolve_eq_ok_iff.mp ⟨resolved, h⟩, listsDocument_of_resolve_eq_ok h⟩
  · obtain ⟨other, h⟩ := exists_resolve_eq_ok_iff.mpr hw
    rw [h, hl.unique (listsDocument_of_resolve_eq_ok h)]

end QueryShape
