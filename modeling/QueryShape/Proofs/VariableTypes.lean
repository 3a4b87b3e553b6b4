import QueryShape.DocumentTyping
import QueryShape.Proofs.CustomScalars
import QueryShape.Proofs.InputTypes
import QueryShape.Proofs.Resolving

/-!
# The shapes of variables

A value conforms to the type of a variable as its wrappers and its scalar, enum or input object say.
The shape of the variable has just these values.
-/

namespace QueryShape

open Outcome

/-- The values of a core, where `custom` has those of custom scalars. An input object has a value
for every field, and may have others. -/
def InputCore.Takes (custom : String → Json → Prop) : InputCore → Json → Prop
  | .scalar name, value => ScalarValueGiven custom name value
  | .enum values, value => EnumValue values value
  | .object fields, value => ∃ members, value = .object members ∧
      ∀ key wrapping core, (key, ⟨wrapping, core⟩) ∈ fields → ∃ inner,
        members.lookup key = some inner ∧
          Wrapper.Admits wrapping true false (core.Takes custom) inner
termination_by core => sizeOf core
decreasing_by
  next hm _ =>
    have hlt := List.sizeOf_lt_of_mem hm
    simp only [Prod.mk.sizeOf_spec, Wrapped.mk.sizeOf_spec, object.sizeOf_spec] at hlt ⊢
    omega

/-- The value is one of the type: null where it may be null, a list of values that are so, or one of
the core. -/
def InputType.Conforms (custom : String → Json → Prop) (type : InputType) (value : Json) : Prop :=
  Wrapper.Admits type.wrapping true false (type.core.Takes custom) value

variable {custom : String → Json → Prop}

/-! ### Null -/

theorem InputCore.not_takes_null (hc : ∀ name, ¬ custom name .null) (core : InputCore) :
    ¬ core.Takes custom .null := by
  cases core with
  | scalar name =>
      rw [Takes, ScalarValueGiven]
      split
      · next hb =>
        simp only [Schema.builtinScalars, List.mem_cons, List.not_mem_nil, or_false] at hb
        rcases hb with rfl | rfl | rfl | rfl | rfl <;> simp [ScalarValue]
      · exact hc name
  | enum values => simp [Takes, EnumValue]
  | object fields => simp [Takes]

theorem Wrapper.admits_null_iff {core : Json → Prop} (hc : ¬ core .null) (wrapping : List Wrapper)
    (nullable : Bool) : Wrapper.Admits wrapping nullable false core .null ↔
      nullable = true ∧ wrapping.head? ≠ some .notNull := by
  induction wrapping generalizing nullable with
  | nil => simp [Wrapper.Admits, hc]
  | cons wrapper inner ih =>
      cases wrapper with
      | list => simp [Wrapper.Admits]
      | notNull => simp [Wrapper.Admits, ih]

/-- Null conforms just to the types that are not under not-null, provided that it is no value of a
custom scalar. -/
theorem InputType.conforms_null_iff (hc : ∀ name, ¬ custom name .null) (type : InputType) :
    type.Conforms custom .null ↔ type.wrapping.head? ≠ some .notNull := by
  rw [Conforms, Wrapper.admits_null_iff (type.core.not_takes_null hc)]
  simp

/-! ### Shapes -/

theorem InputCore.properties_eq_map (fields : List (String × InputType)) :
    properties fields = fields.map fun field => (field.1, field.2.shape) := by
  induction fields with
  | nil => rfl
  | cons field rest ih =>
      obtain ⟨key, wrapping, core⟩ := field
      rw [properties, ih, List.map_cons]
      rfl

theorem InputType.admitsGiven_shape_iff {type : InputType}
    (h : ∀ value, type.core.shape.AdmitsGiven custom value ↔ type.core.Takes custom value)
    {value : Json} : type.shape.AdmitsGiven custom value ↔ type.Conforms custom value := by
  have hcore : type.core.shape.AdmitsGiven custom = type.core.Takes custom :=
    funext fun value => propext (h value)
  rw [shape, Shape.admitsGiven_wrapped, Conforms, hcore]

/-- What a type name stands for has the values that its shape has. The keys of an input object are
distinct, so each of its fields counts. -/
theorem Schema.Stands.admitsGiven_shape {schema : Schema} {name : String} {core : InputCore}
    (h : schema.Stands name core) {value : Json} :
    core.shape.AdmitsGiven custom value ↔ core.Takes custom value := by
  induction h generalizing value with
  | scalar => rw [InputCore.shape, InputCore.Takes, Shape.admitsGiven_ofScalar]
  | enum => rw [InputCore.shape, InputCore.Takes, Shape.admitsGiven_ofNames]
  | @object name declared cores hi hf ih =>
      have hentry (entry : String × TypeRef) (he : entry ∈ declared.entries) (value : Json) :
          (InputType.shape ⟨entry.2.wrapping, cores entry.2.core⟩).AdmitsGiven custom value ↔
            InputType.Conforms custom ⟨entry.2.wrapping, cores entry.2.core⟩ value :=
        InputType.admitsGiven_shape_iff fun _ => ih entry he
      have hkeys : ((declared.entries.map fun entry => (entry.1,
          InputType.shape ⟨entry.2.wrapping, cores entry.2.core⟩)).map Prod.fst).Nodup := by
        rw [List.map_map]
        exact declared.nodup
      rw [InputCore.shape, InputCore.Takes, InputCore.properties_eq_map, List.map_map,
        Shape.AdmitsGiven]
      refine exists_congr fun members => and_congr_right fun _ => ?_
      simp only [Function.comp_def, OrderedMap.lookup_reverse_eq_some_iff hkeys, List.mem_map]
      constructor
      · rintro h _ _ _ ⟨entry, he, ⟨⟩⟩
        obtain ⟨inner, hl, hv⟩ := h entry.1 _ ⟨entry, he, rfl⟩
        exact ⟨inner, hl, (hentry entry he inner).mp hv⟩
      · rintro h _ _ ⟨entry, he, ⟨⟩⟩
        obtain ⟨inner, hl, hv⟩ := h entry.1 _ _ ⟨entry, he, rfl⟩
        exact ⟨inner, hl, (hentry entry he inner).mpr hv⟩

/-! ### The variables of a document -/

/-- A variable as it is declared: its name, the wrappers of its type, and what the name of its type
stands for. -/
structure Schema.StandsForVariable (schema : Schema) (declared : Source.VariableDefinition)
    (var : String × InputType) : Prop where
  name : var.1 = declared.name
  wrapping : var.2.wrapping = declared.type.wrapping
  core : schema.Stands declared.type.core var.2.core

theorem Schema.StandsForVariable.unique {schema : Schema} {declared : Source.VariableDefinition}
    {var var' : String × InputType} (h : schema.StandsForVariable declared var)
    (h' : schema.StandsForVariable declared var') : var = var' := by
  obtain ⟨name, wrapping, core⟩ := var
  obtain ⟨name', wrapping', core'⟩ := var'
  obtain ⟨rfl, rfl, hcore⟩ := h
  obtain ⟨rfl, rfl, hcore'⟩ := h'
  cases hcore.unique hcore'
  rfl

theorem Schema.standsForVariable_of_resolveVars {schema : Schema}
    {declared : List Source.VariableDefinition} {vars : List (String × InputType)}
    (h : schema.resolveVars declared = .ok vars) :
    List.Forall₂ schema.StandsForVariable declared vars := by
  refine (mapM_eq_ok h).imp fun definition var hvar => ?_
  simp only [bind_eq_ok, pure_eq_ok] at hvar
  obtain ⟨type, ht, rfl⟩ := hvar
  obtain ⟨hwrapping, hcore⟩ := Schema.stands_of_inputType_eq_ok ht
  exact ⟨rfl, hwrapping, hcore⟩

theorem Schema.standsForVariable_of_resolvesOperation {schema : Schema} {maxDepth : Nat}
    {definition : Source.OperationDefinition} {operation : Operation (Selection String)}
    (h : schema.ResolvesOperation maxDepth definition operation) :
    List.Forall₂ schema.StandsForVariable definition.vars operation.vars := by
  obtain ⟨_, vars, _, _, hv, _, rfl⟩ := (schema.resolvesOperation_iff maxDepth).mp h
  exact standsForVariable_of_resolveVars hv

/-- A variable is typed at a shape that has just the values that conform to its type. -/
structure TypedExactly (var : String × InputType) (typed : String × Shape) : Prop where
  name : typed.1 = var.1
  values : ∀ value, typed.2.Admits value ↔ var.2.Conforms (fun _ _ => True) value
  given : ∀ custom value, typed.2.AdmitsGiven custom value ↔ var.2.Conforms custom value
  null : ∀ custom, (∀ name, ¬ custom name .null) →
    (var.2.Conforms custom .null ↔ var.2.wrapping.head? ≠ some .notNull)

theorem Schema.Stands.typedExactly {schema : Schema} {name : String} {type : InputType}
    (h : schema.Stands name type.core) (key : String) :
    TypedExactly (key, type) (key, type.shape.normalize) := by
  have hgiven (custom : String → Json → Prop) (value : Json) :
      type.shape.normalize.AdmitsGiven custom value ↔ type.Conforms custom value := by
    rw [Shape.admitsGiven_normalize]
    exact InputType.admitsGiven_shape_iff fun _ => h.admitsGiven_shape
  refine ⟨rfl, fun value => ?_, hgiven, fun custom hc => InputType.conforms_null_iff hc type⟩
  rw [← Shape.admitsGiven_anything, hgiven]

theorem Operation.typedExactly_signature {schema : Schema} {options : Options}
    {definition : Source.OperationDefinition} {operation : Operation LinkedSelection}
    {signature : Signature}
    (hv : List.Forall₂ schema.StandsForVariable definition.vars operation.vars)
    (h : operation.flatten.signature options = .ok signature) :
    List.Forall₂ TypedExactly operation.vars signature.vars := by
  simp only [Operation.signature, bind_eq_ok, pure_eq_ok] at h
  obtain ⟨_, _, rfl⟩ := h
  rw [List.forall₂_map_right_iff, Operation.flatten, List.forall₂_same]
  rintro ⟨key, type⟩ hm
  obtain ⟨_, _, hstands⟩ := exists_of_mem_forall₂ hv hm
  exact hstands.core.typedExactly key

/-- The variables of a document are typed exactly: if it has signatures, then it is resolved, and
the signature of each operation types every variable of the operation, in order, at a shape that has
just the values that conform to the type of the variable. -/
theorem Schema.signatures_vars_exact (schema : Schema) (options : Options)
    (document : Source.Document) (signatures : List Signature)
    (h : schema.signatures options document = .ok signatures) :
    ∃ resolved, schema.resolve options.maxDepth document = .ok resolved ∧
      List.Forall₂ (fun operation signature =>
        List.Forall₂ TypedExactly operation.vars signature.vars)
        resolved.operations signatures := by
  simp only [Schema.signatures, bind_eq_ok] at h
  obtain ⟨resolved, hr, linked, hl, h⟩ := h
  refine ⟨resolved, hr, ?_⟩
  obtain ⟨operations, entries, hoperations, _, rfl⟩ := (schema.resolve_eq_ok_iff _).mp hr
  have hlinked := Resolved.linksTo_of_link hl
  have hsame : operations.map Operation.vars = linked.map Operation.vars :=
    map_eq_map_of_forall₂ hlinked fun _ _ hlinks => hlinks.vars.symm
  have hstands : ∀ operation ∈ linked, ∃ definition : Source.OperationDefinition,
      List.Forall₂ schema.StandsForVariable definition.vars operation.vars := by
    intro operation hm
    obtain ⟨raw, hraw, hlinks⟩ := exists_of_mem_forall₂ hlinked hm
    obtain ⟨definition, _, hd⟩ := exists_of_mem_forall₂ hoperations hraw
    exact ⟨definition, hlinks.vars ▸ schema.standsForVariable_of_resolvesOperation hd⟩
  have hsignatures := List.forall₂_map_left_iff.mp (mapM_eq_ok h)
  have htyped : List.Forall₂ (fun vars signature => List.Forall₂ TypedExactly vars signature.vars)
      (linked.map Operation.vars) signatures := by
    rw [List.forall₂_map_left_iff]
    refine ((List.forall₂_and_left linked signatures).mpr ⟨hstands, hsignatures⟩).imp ?_
    rintro operation signature ⟨⟨_, hv⟩, hs⟩
    exact Operation.typedExactly_signature hv hs
  rw [← hsame] at htyped
  exact List.forall₂_map_left_iff.mp htyped

def countSchema : Schema :=
  .ofDocument
    [.type ⟨"Query", .object [("count", ⟨[.notNull], "Int"⟩)] []⟩,
      .type ⟨"Unit", .enum ["METRE"]⟩,
      .type ⟨"Mark", .scalar⟩,
      .type ⟨"Range", .input [("unit", ⟨[.notNull], "Unit"⟩), ("high", ⟨[], "Mark"⟩)]⟩]

def countDocument : Source.Document :=
  [.operation ⟨⟨1, 1⟩, .query, none, [⟨⟨1, 7⟩, "ranges", ⟨[.list, .notNull], "Range"⟩⟩],
    [.field ⟨1, 27⟩ none "count" []]⟩]

def rangesType : InputType :=
  ⟨[.list, .notNull], .object [("unit", ⟨[.notNull], .enum ["METRE"]⟩),
    ("high", ⟨[], .scalar "Mark"⟩)]⟩

def rangesShape : Shape :=
  .nullable (.list (.object [("unit", .literal "METRE"), ("high", .nullable (.reference "Mark"))]))

theorem Schema.signatures_vars_exact_countDocument :
    countSchema.signatures {} countDocument =
        .ok [⟨.query, none, .object [("count", .number)], [("ranges", rangesShape)]⟩] ∧
      ∀ value, rangesShape.Admits value ↔ rangesType.Conforms (fun _ _ => True) value := by
  have h : countSchema.signatures {} countDocument =
      .ok [⟨.query, none, .object [("count", .number)], [("ranges", rangesShape)]⟩] := by cbv
  refine ⟨h, fun value => ?_⟩
  obtain ⟨resolved, hr, htyped⟩ := countSchema.signatures_vars_exact {} countDocument _ h
  obtain ⟨operation, ho, hexact⟩ := exists_of_mem_forall₂ htyped List.mem_cons_self
  have hvars : (countSchema.resolve 64 countDocument).map
      (fun resolved => resolved.operations.map Operation.vars) =
        .ok [[("ranges", rangesType)]] := by cbv
  rw [hr, Except.map] at hvars
  have hmem := List.mem_map_of_mem (f := Operation.vars) ho
  rw [Except.ok.inj hvars, List.mem_singleton] at hmem
  rw [hmem] at hexact
  exact (List.forall₂_cons.mp hexact).1.values value

end QueryShape
