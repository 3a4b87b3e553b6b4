import QueryShape.Proofs.Everywhere
import QueryShape.Proofs.Linking
import QueryShape.Proofs.ResolveSteps

/-!
# Selections typed by a schema

Each selection set is on a composite type with its possible types, and each field has the type that
the schema declares there. Resolving makes such selections, and they stay so.
-/

namespace QueryShape

open Outcome

namespace Schema

/-- A composite type, with its possible types. -/
def Scopes (schema : Schema) (on : String) (possible : List String) : Prop :=
  (∃ definition, schema.definition? on = some definition ∧ definition.body.isComposite = true) ∧
    possible = schema.possibleTypes on

def MirrorsCore (schema : Schema) (name : String) : OutputCore String → Prop
  | .scalar scalar => scalar = name ∧ ∃ definition, schema.definition? name = some definition ∧
      definition.body = .scalar
  | .enum values => ∃ definition, schema.definition? name = some definition ∧
      definition.body = .enum values
  | .typename => False
  | .selection on => on = name

/-- The name of a type, or the type of some field that is declared on the type `on`. -/
def Mirrors (schema : Schema) (on : String) (field : Field String) : Prop :=
  field.type = { core := .typename } ∨
    ∃ name type, schema.Declares on name type ∧
      field.type.wrapping = type.wrapping ∧ schema.MirrorsCore type.core field.type.core

end Schema

/-- Every selection set and every field is as the schema has it. -/
abbrev Selection.Typed {ρ : Type} (schema : Schema) (selection : Selection ρ) : Prop :=
  selection.Everywhere schema.Scopes schema.Mirrors

def Part.Typed (schema : Schema) (on : String) (part : Part String) : Prop :=
  match part with
  | .field selected => Selection.FieldEverywhere schema.Scopes schema.Mirrors on selected
  | .branch inner => inner.Typed schema
  | .spread _ => True

namespace Selection

theorem typed_cons {schema : Schema} {part : Part String} {selection : Selection String}
    (hp : part.Typed schema selection.on) (hs : selection.Typed schema) :
    (selection.cons part).Typed schema ∧ (selection.cons part).on = selection.on := by
  obtain ⟨here, hfields, hbranches⟩ := everywhere_iff.mp hs
  cases part with
  | field field =>
      exact ⟨everywhere_iff.mpr ⟨here, List.forall_mem_cons.mpr ⟨hp, hfields⟩, hbranches⟩, rfl⟩
  | branch branch =>
      exact ⟨everywhere_iff.mpr ⟨here, hfields, List.forall_mem_cons.mpr ⟨hp, hbranches⟩⟩, rfl⟩
  | spread name => exact ⟨everywhere_iff.mpr ⟨here, hfields, hbranches⟩, rfl⟩

theorem typed_nothing {schema : Schema} {on : String} {possible : List String}
    (h : schema.Scopes on possible) : (nothing on possible : Selection String).Typed schema :=
  everywhere_iff.mpr ⟨h, by simp [nothing], by simp [nothing]⟩

end Selection

namespace Schema

variable {schema : Schema} {maxDepth : Nat}

theorem IsComposite.scopes {on : String} (h : schema.IsComposite on) :
    schema.Scopes on (schema.possibleTypes on) := by
  obtain ⟨_, ⟨definition, hd, rfl⟩, hc⟩ := h
  exact ⟨⟨definition, hd, hc⟩, rfl⟩

theorem IsComposite.typed_blank {on : String} (h : schema.IsComposite on) :
    (schema.blank on).Typed schema :=
  Selection.typed_nothing h.scopes

theorem IsLeaf.fieldEverywhere {on name key : String} {type : TypeRef}
    {core : OutputCore (Selection String)} (hf : schema.Declares on name type)
    (h : schema.IsLeaf type.core core) :
    Selection.FieldEverywhere schema.Scopes schema.Mirrors on ⟨key, type.wrapping, core⟩ := by
  cases h with
  | scalar hb => exact ⟨.inr ⟨name, type, hf, rfl, rfl, hb⟩, fun _ hn => by cases hn⟩
  | enum hb => exact ⟨.inr ⟨name, type, hf, rfl, hb⟩, fun _ hn => by cases hn⟩

mutual

theorem typed_resolveItem {on : String} (hc : schema.IsComposite on) {depth : Nat}
    {item : Source.Item} {part : Part String}
    (h : schema.resolveItem maxDepth (schema.blank on) depth item = .ok part) :
    part.Typed schema on := by
  match item with
  | .field position alias? name items =>
      by_cases hn : name = typenameField
      · subst hn
        cases resolveItem_typename_eq_ok_iff.mp h
        exact ⟨.inl rfl, fun _ hn => by cases hn⟩
      · obtain ⟨type, core, hf, hl | ⟨hcore, _, _, nested, hs, rfl⟩, rfl⟩ :=
          (resolveItem_field_eq_ok_iff hn).mp h
        · exact hl.fieldEverywhere hf
        · obtain ⟨hnested, hon⟩ := typed_resolveItems hcore hs
          exact ⟨.inr ⟨name, type, hf, rfl, hon⟩, fun inner hi => by cases hi; exact hnested⟩
  | .inline position on? items =>
      obtain ⟨hon, _, branch, hb, rfl⟩ := resolveItem_inline_eq_ok_iff.mp h
      have hbranch : schema.IsComposite (on?.getD on) := by
        cases on? with
        | none => exact hc
        | some type => exact hon type rfl
      exact (typed_resolveItems hbranch hb).1
  | .spread name =>
      cases resolveItem_spread_eq_ok_iff.mp h
      trivial

theorem typed_resolveItems {on : String} (hc : schema.IsComposite on) {depth : Nat}
    {items : List Source.Item} {selection : Selection String}
    (h : schema.resolveItems maxDepth (schema.blank on) depth items = .ok selection) :
    selection.Typed schema ∧ selection.on = on := by
  match items with
  | [] =>
      cases pure_eq_ok.mp h
      exact ⟨hc.typed_blank, rfl⟩
  | item :: rest =>
      simp only [resolveItems, bind_eq_ok, pure_eq_ok] at h
      obtain ⟨part, hp, selection, hr, rfl⟩ := h
      obtain ⟨hrest, hon⟩ := typed_resolveItems hc hr
      have hpart := typed_resolveItem hc hp
      rw [← hon] at hpart ⊢
      exact Selection.typed_cons hpart hrest

end

end Schema

/-- All operations and all fragments of a document are typed by the schema. -/
structure Resolved.Typed (schema : Schema) (resolved : Resolved) : Prop where
  operations : ∀ operation ∈ resolved.operations, operation.selection.Typed schema
  fragments : ∀ name selection, resolved.fragments.find? name = some selection →
    selection.Typed schema

namespace Schema

variable {schema : Schema} {maxDepth : Nat}

theorem typed_resolveRoot {type : String} {position : Position} {items : List Source.Item}
    {selection : Selection String}
    (h : schema.resolveRoot maxDepth type position items = .ok selection) :
    selection.Typed schema := by
  obtain ⟨hc, _, hs⟩ := resolveRoot_eq_ok_iff.mp h
  exact (typed_resolveItems hc hs).1

theorem typed_resolveDefinition {resolved next : Resolved} (hr : resolved.Typed schema)
    {definition : Source.Definition}
    (h : schema.resolveDefinition maxDepth resolved definition = .ok next) :
    next.Typed schema := by
  cases definition with
  | operation definition =>
      simp only [resolveDefinition, bind_eq_ok, pure_eq_ok] at h
      obtain ⟨operation, ho, rfl⟩ := h
      refine ⟨List.forall_mem_append.mpr ⟨hr.operations, ?_⟩, hr.fragments⟩
      rw [List.forall_mem_singleton]
      unfold resolveOperation at ho
      cases hroot : schema.roots.ofKind definition.kind with
      | none => simp [hroot] at ho
      | some root =>
          simp only [hroot, bind_eq_ok, pure_eq_ok] at ho
          obtain ⟨vars, _, selection, hs, rfl⟩ := ho
          exact typed_resolveRoot hs
  | fragment definition =>
      simp only [resolveDefinition, bind_eq_ok, pure_eq_ok] at h
      obtain ⟨selection, hs, rfl⟩ := h
      refine ⟨hr.operations, fun name other hf => ?_⟩
      rw [OrderedMap.find?_insert] at hf
      split at hf
      · cases hf
        exact typed_resolveRoot hs
      · exact hr.fragments name other hf

private theorem typed_foldlM {document : Source.Document} {start resolved : Resolved}
    (hs : start.Typed schema)
    (h : document.foldlM (schema.resolveDefinition maxDepth) start = .ok resolved) :
    resolved.Typed schema := by
  induction document generalizing start with
  | nil =>
      cases h
      exact hs
  | cons definition rest ih =>
      simp only [List.foldlM_cons, bind_eq_ok] at h
      obtain ⟨next, hn, h⟩ := h
      exact ih (typed_resolveDefinition hs hn) h

theorem typed_resolve {document : Source.Document} {resolved : Resolved}
    (h : schema.resolve maxDepth document = .ok resolved) : resolved.Typed schema :=
  typed_foldlM ⟨by simp, fun name selection hf => by cases hf⟩ h

end Schema

/-- What all operations and all fragments have at every part, the linked operations have. -/
theorem Resolved.everywhere_link {p : String → List String → Prop}
    {q : String → Field String → Prop} {resolved : Resolved}
    (ho : ∀ operation ∈ resolved.operations, operation.selection.Everywhere p q)
    (hf : ∀ name selection, resolved.fragments.find? name = some selection →
      selection.Everywhere p q)
    {maxDepth : Nat} {linked : List (Operation LinkedSelection)}
    (h : resolved.link maxDepth = .ok linked) :
    ∀ operation ∈ linked, operation.selection.Everywhere p q := by
  intro operation hmem
  obtain ⟨raw, hraw, hlinks⟩ := exists_of_mem_forall₂ (linksTo_of_link h) hmem
  obtain ⟨levels, hexpands⟩ := hlinks.selection
  exact Selection.everywhere_expand hf (hexpands levels (Nat.le_refl levels)) (ho raw hraw)

theorem Resolved.typed_link {schema : Schema} {resolved : Resolved} (hr : resolved.Typed schema)
    {maxDepth : Nat} {linked : List (Operation LinkedSelection)}
    (h : resolved.link maxDepth = .ok linked) :
    ∀ operation ∈ linked, operation.selection.Typed schema :=
  resolved.everywhere_link hr.operations hr.fragments h

theorem typed_iterate_flatten {schema : Schema} {operations : List (Operation LinkedSelection)}
    (h : ∀ operation ∈ operations, operation.selection.Typed schema) (times : Nat) :
    ∀ operation ∈ (List.map Operation.flatten)^[times] operations,
      operation.selection.Typed schema := by
  refine Function.Iterate.rec (fun operations : List (Operation LinkedSelection) =>
    ∀ operation ∈ operations, operation.selection.Typed schema) h ?_ times
  intro operations h operation ho
  obtain ⟨previous, hp, rfl⟩ := List.mem_map.mp ho
  exact Selection.everywhere_flatten (h previous hp)

/-- From resolving on, every selection set of a document stays on a composite type of the schema,
with the possible types that the schema has for it, and every field stays one that the schema has
there: so it is in the operations and the fragments as they are resolved, in the operations once
they are linked, and after flattening these any number of times. -/
theorem Schema.typed_throughout (schema : Schema) (maxDepth : Nat) (document : Source.Document)
    (resolved : Resolved) (h : schema.resolve maxDepth document = .ok resolved) :
    resolved.Typed schema ∧
      ∀ cap linked, resolved.link cap = .ok linked → ∀ times,
        ∀ operation ∈ (List.map Operation.flatten)^[times] linked,
          operation.selection.Typed schema := by
  have htyped := Schema.typed_resolve h
  refine ⟨htyped, fun cap linked hl times => ?_⟩
  exact typed_iterate_flatten (resolved.typed_link htyped hl) times

def petSchema : Schema :=
  .ofDocument
    [.type ⟨"Query", .object [("pets", ⟨[.notNull, .list], "Pet"⟩)] []⟩,
      .type ⟨"Pet", .union ["Cat", "Dog"]⟩,
      .type ⟨"Cat", .object [("mood", ⟨[.notNull], "Mood"⟩)] []⟩,
      .type ⟨"Dog", .object [("name", ⟨[], "String"⟩)] []⟩,
      .type ⟨"Mood", .enum ["HUNGRY", "SLEEPY"]⟩]

def petDocument : Source.Document :=
  [.operation { position := ⟨1, 1⟩, kind := .query, items := [.field ⟨1, 3⟩ none "pets"
      [.field ⟨1, 10⟩ none "__typename" [],
        .inline ⟨1, 25⟩ (some "Dog") [.field ⟨1, 34⟩ (some "called") "name" []],
        .spread "Mood"]] },
    .fragment ⟨⟨2, 1⟩, "Mood", "Cat", [.field ⟨2, 20⟩ none "mood" []]⟩]

def petLinked : List (Operation LinkedSelection) :=
  let cat : LinkedSelection :=
    ⟨"Cat", ["Cat"], [⟨"mood", [.notNull], .enum ["HUNGRY", "SLEEPY"]⟩], [], []⟩
  let dog : LinkedSelection := ⟨"Dog", ["Dog"], [⟨"called", [], .scalar "String"⟩], [], []⟩
  let pets : LinkedSelection :=
    ⟨"Pet", ["Cat", "Dog"], [⟨"__typename", [], .typename⟩], [dog, cat], []⟩
  [⟨.query, none, ⟨"Query", ["Query"], [⟨"pets", [.notNull, .list], .selection pets⟩], [], []⟩, []⟩]

theorem Schema.typed_throughout_petDocument :
    ∃ resolved, petSchema.resolve 64 petDocument = .ok resolved ∧ resolved.Typed petSchema ∧
      resolved.link 64 = .ok petLinked ∧
      ∀ operation ∈ (petLinked.map Operation.flatten).map Operation.flatten,
        operation.selection.Typed petSchema := by
  have h : (petSchema.resolve 64 petDocument >>= fun resolved => resolved.link 64) =
      .ok petLinked := by cbv
  obtain ⟨resolved, hr, hl⟩ := bind_eq_ok.mp h
  obtain ⟨htyped, hlinked⟩ := petSchema.typed_throughout 64 petDocument resolved hr
  exact ⟨resolved, hr, htyped, hl, hlinked 64 petLinked hl 2⟩

end QueryShape
