import QueryShape.Proofs.Agreement
import QueryShape.Proofs.Echoes
import QueryShape.Resolved

/-!
# Documents with a repeated item

Writing an item of a selection set a second time, right behind itself, repeats a part of the
resolved selection, or is refused as before.
-/

namespace QueryShape

namespace Source

/-- One item is written twice, in this selection set or in one inside of it. -/
inductive RepeatsItem : List Item → List Item → Prop where
  | here (item : Item) (rest : List Item) : RepeatsItem (item :: rest) (item :: item :: rest)
  | inField (position : Position) (alias? : Option String) (name : String)
      {items items' : List Item} (h : RepeatsItem items items') (rest : List Item) :
      RepeatsItem (.field position alias? name items :: rest)
        (.field position alias? name items' :: rest)
  | inInline (position : Position) (on? : Option String) {items items' : List Item}
      (h : RepeatsItem items items') (rest : List Item) :
      RepeatsItem (.inline position on? items :: rest) (.inline position on? items' :: rest)
  | behind (item : Item) {rest rest' : List Item} (h : RepeatsItem rest rest') :
      RepeatsItem (item :: rest) (item :: rest')

inductive Definition.RepeatsItem : Definition → Definition → Prop where
  | operation (definition : OperationDefinition) {items : List Item}
      (h : Source.RepeatsItem definition.items items) :
      RepeatsItem (.operation definition) (.operation { definition with items })
  | fragment (definition : FragmentDefinition) {items : List Item}
      (h : Source.RepeatsItem definition.items items) :
      RepeatsItem (.fragment definition) (.fragment { definition with items })

inductive Document.RepeatsItem : Document → Document → Prop where
  | intro (before : Document) {definition definition' : Definition}
      (h : definition.RepeatsItem definition') (after : Document) :
      RepeatsItem (before ++ definition :: after) (before ++ definition' :: after)

theorem RepeatsItem.isEmpty_eq {items items' : List Item} (h : RepeatsItem items items') :
    items'.isEmpty = items.isEmpty := by
  cases h <;> rfl

end Source

open Outcome Source

/-- Parts that differ in their selections by repetitions only. -/
inductive Part.Echoes {ρ : Type} : Part ρ → Part ρ → Prop where
  | field {field field' : Field (Selection ρ)} (h : field.Agrees Selection.Echoes field') :
      Echoes (.field field) (.field field')
  | branch {branch branch' : Selection ρ} (h : branch.Echoes branch') :
      Echoes (.branch branch) (.branch branch')
  | spread (name : ρ) : Echoes (.spread name) (.spread name)

namespace Selection

variable {ρ : Type}

theorem echoes_cons {part part' : Part ρ} {selection selection' : Selection ρ}
    (hp : part.Echoes part') (hs : selection.Echoes selection') :
    (selection.cons part).Echoes (selection'.cons part') := by
  obtain ⟨hon, hpossible, hfields, hbranches, hspreads⟩ := echoes_iff.mp hs
  cases hp with
  | field h =>
      exact echoes_iff.mpr
        ⟨hon, hpossible, (RepeatsUpTo.singleton h).append hfields, hbranches, hspreads⟩
  | branch h =>
      exact echoes_iff.mpr
        ⟨hon, hpossible, hfields, (RepeatsUpTo.singleton h).append hbranches, hspreads⟩
  | spread name =>
      exact echoes_iff.mpr ⟨hon, hpossible, hfields, hbranches, hspreads.append_left [name]⟩

theorem echoes_cons_same (part : Part ρ) {selection selection' : Selection ρ}
    (h : selection.Echoes selection') : (selection.cons part).Echoes (selection'.cons part) := by
  refine echoes_cons ?_ h
  cases part with
  | field selected => exact .field (.refl selected fun nested _ => .refl nested)
  | branch inner => exact .branch (.refl inner)
  | spread name => exact .spread name

theorem echoes_cons_twice (part : Part ρ) (selection : Selection ρ) :
    (selection.cons part).Echoes ((selection.cons part).cons part) := by
  obtain ⟨hon, hpossible, hfields, hbranches, hspreads⟩ :=
    echoes_iff.mp (Echoes.refl (selection.cons part))
  cases part with
  | field selected =>
      obtain ⟨replaced, hr, hrep⟩ := hfields
      refine echoes_iff.mpr ⟨hon, hpossible, ⟨replaced, hr, ?_⟩, hbranches, hspreads⟩
      exact hrep.trans (.single [] [selected] selection.fields)
  | branch inner =>
      obtain ⟨exchanged, hr, hrep⟩ := hbranches
      refine echoes_iff.mpr ⟨hon, hpossible, hfields, ⟨exchanged, hr, ?_⟩, hspreads⟩
      exact hrep.trans (.single [] [inner] selection.branches)
  | spread name =>
      refine echoes_iff.mpr ⟨hon, hpossible, hfields, hbranches, ?_⟩
      exact hspreads.trans (.single [] [name] selection.spreads)

end Selection

namespace Schema

variable {schema : Schema} {maxDepth : Nat}

theorem agree_outputCore {type : String} {position : Position}
    {select select' : Selection String → Typing (Selection String)}
    (h : ∀ scope, Agree Selection.Echoes (select scope) (select' scope)) :
    Agree (OutputCore.Agrees Selection.Echoes) (schema.outputCore type position select)
      (schema.outputCore type position select') := by
  unfold outputCore
  cases schema.definition? type with
  | none => exact agree_throw _
  | some definition =>
      dsimp only
      cases definition.body with
      | scalar => exact .done (.scalar type)
      | enum values => exact .done (.enum values)
      | input fields => exact agree_throw _
      | object fields interfaces => exact (h _).bind fun _ _ hn => .done (.selection hn)
      | interface fields => exact (h _).bind fun _ _ hn => .done (.selection hn)
      | union members => exact (h _).bind fun _ _ hn => .done (.selection hn)

theorem agree_resolveItems_cons {scope : Selection String} {depth : Nat} {item item' : Item}
    (h : Agree Part.Echoes (schema.resolveItem maxDepth scope depth item)
      (schema.resolveItem maxDepth scope depth item')) (rest : List Item) :
    Agree Selection.Echoes (schema.resolveItems maxDepth scope depth (item :: rest))
      (schema.resolveItems maxDepth scope depth (item' :: rest)) := by
  rw [resolveItems, resolveItems]
  refine h.bind fun part part' hp => .bind_same _ fun selection => ?_
  exact .done (Selection.echoes_cons hp (.refl selection))

theorem agree_resolveItems {items items' : List Item} (h : RepeatsItem items items')
    (scope : Selection String) (depth : Nat) :
    Agree Selection.Echoes (schema.resolveItems maxDepth scope depth items)
      (schema.resolveItems maxDepth scope depth items') := by
  induction h generalizing scope depth with
  | here item rest =>
      rw [resolveItems, resolveItems, resolveItems]
      cases schema.resolveItem maxDepth scope depth item with
      | error error => exact .refused error
      | ok part =>
          cases schema.resolveItems maxDepth scope depth rest with
          | error error => exact .refused error
          | ok selection => exact .done (Selection.echoes_cons_twice part selection)
  | inField position alias? name h rest ih =>
      apply agree_resolveItems_cons
      rw [resolveItem, resolveItem]
      split
      · exact .done (.field (.refl _ fun nested _ => .refl nested))
      · cases schema.fieldType? scope.on name with
        | none => exact agree_throw _
        | some type =>
            refine Agree.bind (agree_outputCore fun nested => ?_) fun core core' hc => ?_
            · rw [h.isEmpty_eq]
              split
              · exact agree_throw _
              · exact .bind_same _ fun _ => ih nested (depth + 1)
            · exact .done (.field ⟨_, _, hc⟩)
  | inInline position on? h rest ih =>
      apply agree_resolveItems_cons
      rw [resolveItem, resolveItem]
      refine .bind_same _ fun branch => .bind_same _ fun _ => ?_
      exact (ih branch (depth + 1)).bind fun _ _ hb => .done (.branch hb)
  | behind item h ih =>
      rw [resolveItems, resolveItems]
      refine .bind_same _ fun part => (ih scope depth).bind fun selection selection' hs => ?_
      exact .done (Selection.echoes_cons_same part hs)

theorem agree_resolveRoot {items items' : List Item} (h : RepeatsItem items items')
    (type : String) (position : Position) :
    Agree Selection.Echoes (schema.resolveRoot maxDepth type position items)
      (schema.resolveRoot maxDepth type position items') := by
  unfold resolveRoot
  exact .bind_same _ fun scope => .bind_same _ fun _ => agree_resolveItems h scope 1

end Schema

/-- The same operation, but for repetitions in its selection. -/
structure Operation.Echoes {ρ : Type} (operation operation' : Operation (Selection ρ)) : Prop where
  kind : operation.kind = operation'.kind
  name? : operation.name? = operation'.name?
  vars : operation.vars = operation'.vars
  selection : operation.selection.Echoes operation'.selection

structure Fragments.Echoes (fragments fragments' : Fragments) : Prop where
  keys : fragments.keys = fragments'.keys
  find? : ∀ name, Option.Rel Selection.Echoes (fragments.find? name) (fragments'.find? name)

structure Resolved.Echoes (resolved resolved' : Resolved) : Prop where
  operations : List.Forall₂ Operation.Echoes resolved.operations resolved'.operations
  fragments : resolved.fragments.Echoes resolved'.fragments

theorem Operation.Echoes.refl {ρ : Type} (operation : Operation (Selection ρ)) :
    operation.Echoes operation := ⟨rfl, rfl, rfl, .refl _⟩

namespace Fragments

theorem Echoes.refl (fragments : Fragments) : fragments.Echoes fragments := by
  refine ⟨rfl, fun name => ?_⟩
  cases fragments.find? name with
  | none => exact .none
  | some selection => exact .some (.refl selection)

theorem Echoes.insert {fragments fragments' : Fragments} (h : fragments.Echoes fragments')
    (name : String) {selection selection' : Selection String} (hs : selection.Echoes selection') :
    Echoes (OrderedMap.insert fragments name selection)
      (OrderedMap.insert fragments' name selection') := by
  refine ⟨?_, fun other => ?_⟩
  · rw [OrderedMap.keys_insert, OrderedMap.keys_insert, h.keys]
  · rw [OrderedMap.find?_insert, OrderedMap.find?_insert]
    split
    · exact .some hs
    · exact h.find? other

end Fragments

theorem Resolved.Echoes.refl (resolved : Resolved) : resolved.Echoes resolved :=
  ⟨List.forall₂_same.mpr fun operation _ => .refl operation, .refl resolved.fragments⟩

namespace Schema

variable {schema : Schema} {maxDepth : Nat}

theorem agree_resolveOperation (definition : OperationDefinition) {items : List Item}
    (h : RepeatsItem definition.items items) :
    Agree Operation.Echoes (schema.resolveOperation maxDepth definition)
      (schema.resolveOperation maxDepth { definition with items }) := by
  unfold resolveOperation
  cases schema.roots.ofKind definition.kind with
  | none => exact agree_throw _
  | some root =>
      refine .bind_same _ fun vars => ?_
      apply (agree_resolveRoot h root definition.position).bind
      intro selection selection' hs
      exact .done ⟨rfl, rfl, rfl, hs⟩

theorem agree_resolveDefinition (resolved : Resolved) {definition definition' : Definition}
    (h : definition.RepeatsItem definition') :
    Agree Resolved.Echoes (schema.resolveDefinition maxDepth resolved definition)
      (schema.resolveDefinition maxDepth resolved definition') := by
  cases h with
  | operation definition h =>
      apply (agree_resolveOperation definition h).bind
      intro operation operation' ho
      refine .done ⟨?_, .refl resolved.fragments⟩
      exact List.rel_append (Resolved.Echoes.refl resolved).operations (.cons ho .nil)
  | fragment definition h =>
      refine (agree_resolveRoot h definition.on definition.position).bind ?_
      intro selection selection' hs
      exact .done ⟨(Resolved.Echoes.refl resolved).operations,
        (Fragments.Echoes.refl resolved.fragments).insert definition.name hs⟩

theorem agree_resolveDefinition_same {resolved resolved' : Resolved}
    (hr : resolved.Echoes resolved') (definition : Definition) :
    Agree Resolved.Echoes (schema.resolveDefinition maxDepth resolved definition)
      (schema.resolveDefinition maxDepth resolved' definition) := by
  cases definition with
  | operation definition =>
      refine .bind_same _ fun operation => .done ⟨?_, hr.fragments⟩
      exact List.rel_append hr.operations (.cons (.refl operation) .nil)
  | fragment definition =>
      refine .bind_same _ fun selection => .done ⟨hr.operations, ?_⟩
      exact hr.fragments.insert definition.name (.refl selection)

/-- A document with a repeated item is refused with the same error, or resolved to selections with
repeated parts. -/
theorem agree_resolve {document document' : Source.Document}
    (h : document.RepeatsItem document') :
    Agree Resolved.Echoes (schema.resolve maxDepth document)
      (schema.resolve maxDepth document') := by
  obtain ⟨before, hd, after⟩ := h
  unfold resolve
  rw [List.foldlM_append, List.foldlM_append]
  refine .bind_same _ fun resolved => ?_
  rw [List.foldlM_cons, List.foldlM_cons]
  exact (agree_resolveDefinition resolved hd).bind fun _ _ hn =>
    .foldlM (fun _ _ definition hr => agree_resolveDefinition_same hr definition) hn after

end Schema
end QueryShape
