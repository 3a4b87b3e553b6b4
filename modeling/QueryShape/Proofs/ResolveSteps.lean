import QueryShape.Proofs.Outcome
import QueryShape.Resolved

/-!
# Steps of resolving

What each step of resolving succeeds with, by what a type name is defined as. A step selects from a
selection that is still blank, with the type of the items around it.
-/

namespace QueryShape.Schema

open Outcome
open Source (Item)

/-- The type of this name is defined, with this body. -/
def Defines (schema : Schema) (name : String) (body : TypeBody FieldMap) : Prop :=
  ∃ definition, schema.definition? name = some definition ∧ definition.body = body

/-- The type `on`, an object or an interface, has a field of this name with this type. -/
inductive Declares (schema : Schema) (on field : String) (type : TypeRef) : Prop where
  | object {fields : FieldMap} {interfaces : List String}
      (hd : schema.Defines on (.object fields interfaces)) (hf : fields.find? field = some type) :
      Declares schema on field type
  | interface {fields : FieldMap} (hd : schema.Defines on (.interface fields))
      (hf : fields.find? field = some type) : Declares schema on field type

def IsInput (schema : Schema) (name : String) : Prop :=
  ∃ body, schema.Defines name body ∧ body.isComposite = false

def IsComposite (schema : Schema) (name : String) : Prop :=
  ∃ body, schema.Defines name body ∧ body.isComposite = true

/-- What is selected from a type that has no fields: the scalar, or the values of the enum. -/
inductive IsLeaf (schema : Schema) (name : String) : OutputCore (Selection String) → Prop where
  | scalar (hb : schema.Defines name .scalar) : IsLeaf schema name (.scalar name)
  | enum {values : List String} (hb : schema.Defines name (.enum values)) :
      IsLeaf schema name (.enum values)

def blank (schema : Schema) (on : String) : Selection String :=
  .nothing on (schema.possibleTypes on)

variable {schema : Schema} {maxDepth : Nat}

theorem Defines.unique {name : String} {body body' : TypeBody FieldMap}
    (h : schema.Defines name body) (h' : schema.Defines name body') : body = body' := by
  obtain ⟨definition, hd, rfl⟩ := h
  obtain ⟨_, hd', rfl⟩ := h'
  cases hd.symm.trans hd'
  rfl

theorem Defines.mem_keys {name : String} {body : TypeBody FieldMap} (h : schema.Defines name body) :
    name ∈ schema.definitions.keys := by
  obtain ⟨definition, hd, _⟩ := h
  exact OrderedMap.mem_keys_of_find? hd

theorem fieldType?_eq_some_iff {on field : String} {type : TypeRef} :
    schema.fieldType? on field = some type ↔ schema.Declares on field type := by
  simp only [fieldType?, Option.bind_eq_bind, Option.bind_eq_some_iff]
  constructor
  · rintro ⟨⟨name, body⟩, hd, fields, hbody, hf⟩
    cases body with
    | object _ interfaces =>
        cases hbody
        exact .object ⟨_, hd, rfl⟩ hf
    | interface _ =>
        cases hbody
        exact .interface ⟨_, hd, rfl⟩ hf
    | scalar | union _ | enum _ | input _ => cases hbody
  · rintro (⟨⟨definition, hd, hbody⟩, hf⟩ | ⟨⟨definition, hd, hbody⟩, hf⟩)
    · exact ⟨definition, hd, _, by rw [hbody]; rfl, hf⟩
    · exact ⟨definition, hd, _, by rw [hbody]; rfl, hf⟩

theorem Declares.unique {on field : String} {type type' : TypeRef}
    (h : schema.Declares on field type) (h' : schema.Declares on field type') : type = type' := by
  rw [← fieldType?_eq_some_iff] at h h'
  exact Option.some.inj (h.symm.trans h')

theorem IsInput.not_isComposite {name : String} (h : schema.IsInput name) :
    ¬ schema.IsComposite name := by
  rintro ⟨other, ho, hcomposite⟩
  obtain ⟨body, hb, hc⟩ := h
  cases hb.unique ho
  rw [hc] at hcomposite
  cases hcomposite

theorem IsLeaf.unique {name : String} {core core' : OutputCore (Selection String)}
    (h : schema.IsLeaf name core) (h' : schema.IsLeaf name core') : core = core' := by
  cases h with
  | scalar hb => cases h' with
    | scalar => rfl
    | enum hb' => cases hb.unique hb'
  | enum hb => cases h' with
    | scalar hb' => cases hb.unique hb'
    | enum hb' =>
        cases hb.unique hb'
        rfl

theorem IsLeaf.not_isComposite {name : String} {core : OutputCore (Selection String)}
    (h : schema.IsLeaf name core) : ¬ schema.IsComposite name := by
  cases h with
  | scalar hb | enum hb => exact IsInput.not_isComposite ⟨_, hb, rfl⟩

/-! ### What a step succeeds with -/

theorem scope_eq_ok_iff {type : String} {position : Position} {scope : Selection String} :
    schema.scope type position = .ok scope ↔
      schema.IsComposite type ∧ schema.blank type = scope := by
  unfold Schema.scope IsComposite Defines blank
  cases hd : schema.definition? type with
  | none => simp
  | some definition => by_cases hc : definition.body.isComposite = true <;> simp [hc]

theorem inlineScope_eq_ok_iff {on : String} {on? : Option String} {position : Position}
    {scope : Selection String} :
    schema.inlineScope (schema.blank on) on? position = .ok scope ↔
      (∀ type ∈ on?, schema.IsComposite type) ∧ schema.blank (on?.getD on) = scope := by
  cases on? with
  | none => simp [inlineScope, blank, Selection.nothing]
  | some type => simp [inlineScope, scope_eq_ok_iff]

theorem outputCore_eq_ok_iff {type : String} {position : Position}
    {select : Selection String → Typing (Selection String)} {core : OutputCore (Selection String)} :
    schema.outputCore type position select = .ok core ↔ schema.IsLeaf type core ∨
      schema.IsComposite type ∧ ∃ nested, select (schema.blank type) = .ok nested ∧
        .selection nested = core := by
  unfold outputCore
  constructor
  · intro h
    split at h
    · simp at h
    · next definition hd =>
      have hcomposite (hc : definition.body.isComposite = true) : schema.IsComposite type :=
        ⟨_, ⟨definition, hd, rfl⟩, hc⟩
      split at h
      · next hb =>
        cases h
        exact .inl (.scalar ⟨definition, hd, hb⟩)
      · next hb =>
        cases h
        exact .inl (.enum ⟨definition, hd, hb⟩)
      · simp at h
      all_goals
        next hb =>
        simp only [bind_eq_ok, pure_eq_ok] at h
        exact .inr ⟨hcomposite (by rw [hb]; rfl), h⟩
  · rintro (hl | ⟨⟨body, ⟨definition, hd, rfl⟩, hc⟩, nested, hn, rfl⟩)
    · cases hl with
      | scalar hb | enum hb =>
          obtain ⟨definition, hd, hb⟩ := hb
          simp [hd, hb]
    · rw [blank] at hn
      cases hb : definition.body <;> simp_all [TypeBody.isComposite]

section

variable {on : String} {depth : Nat} {position : Position} {alias? : Option String}
  {items : List Item} {part : Part String}

theorem resolveItem_spread_eq_ok_iff {name : String} :
    schema.resolveItem maxDepth (schema.blank on) depth (.spread name) = .ok part ↔
      .spread name = part := by
  rw [resolveItem, pure_eq_ok]

theorem resolveItem_inline_eq_ok_iff {on? : Option String} :
    schema.resolveItem maxDepth (schema.blank on) depth (.inline position on? items) = .ok part ↔
      (∀ type ∈ on?, schema.IsComposite type) ∧ depth + 1 ≤ maxDepth ∧ ∃ branch,
        schema.resolveItems maxDepth (schema.blank (on?.getD on)) (depth + 1) items = .ok branch ∧
          .branch branch = part := by
  simp only [resolveItem, bind_eq_ok, pure_eq_ok, inlineScope_eq_ok_iff, checkDepth_eq_ok]
  constructor
  · rintro ⟨_, ⟨hc, rfl⟩, _, hd, h⟩
    exact ⟨hc, hd, h⟩
  · rintro ⟨hc, hd, h⟩
    exact ⟨_, ⟨hc, rfl⟩, ⟨⟩, hd, h⟩

theorem resolveItem_typename_eq_ok_iff :
    schema.resolveItem maxDepth (schema.blank on) depth
        (.field position alias? typenameField items) = .ok part ↔
      .field ⟨alias?.getD typenameField, { core := .typename }⟩ = part := by
  rw [resolveItem, if_pos rfl, pure_eq_ok]

theorem resolveItem_field_eq_ok_iff {name : String} (hn : name ≠ typenameField) :
    schema.resolveItem maxDepth (schema.blank on) depth (.field position alias? name items) =
        .ok part ↔ ∃ type core, schema.Declares on name type ∧
      (schema.IsLeaf type.core core ∨ schema.IsComposite type.core ∧ items ≠ [] ∧
        depth + 1 ≤ maxDepth ∧ ∃ nested,
          schema.resolveItems maxDepth (schema.blank type.core) (depth + 1) items = .ok nested ∧
            .selection nested = core) ∧
      .field ⟨alias?.getD name, type.wrapping, core⟩ = part := by
  rw [resolveItem, if_neg hn, show (schema.blank on).on = on from rfl]
  simp only [← fieldType?_eq_some_iff]
  cases hf : schema.fieldType? on name with
  | none => simp
  | some type =>
      simp only [bind_eq_ok, pure_eq_ok, outputCore_eq_ok_iff, Option.some.injEq,
        exists_and_left, exists_eq_left']
      refine exists_congr fun core => and_congr_left fun _ => or_congr_right ?_
      by_cases hi : items = []
      · simp [hi]
      · simp [hi, checkDepth_eq_ok, and_assoc]

end

theorem resolveRoot_eq_ok_iff {type : String} {position : Position} {items : List Item}
    {selection : Selection String} :
    schema.resolveRoot maxDepth type position items = .ok selection ↔
      schema.IsComposite type ∧ 1 ≤ maxDepth ∧
        schema.resolveItems maxDepth (schema.blank type) 1 items = .ok selection := by
  simp only [resolveRoot, bind_eq_ok, scope_eq_ok_iff, checkDepth_eq_ok]
  constructor
  · rintro ⟨_, ⟨hc, rfl⟩, _, hd, hs⟩
    exact ⟨hc, hd, hs⟩
  · rintro ⟨hc, hd, hs⟩
    exact ⟨_, ⟨hc, rfl⟩, ⟨⟩, hd, hs⟩

end QueryShape.Schema
