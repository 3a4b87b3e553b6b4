import Mathlib.Data.List.Perm.Subperm
import Mathlib.Logic.Relation
import QueryShape.InputExpansion
import QueryShape.Proofs.ResolveSteps

/-!
# Which input types can be expanded

Expanding calls itself for the fields of an input object, which it enters only once. So it succeeds
just if all types reached are defined input types and none contains itself.
-/

namespace QueryShape.Schema

open Outcome

def Contains (schema : Schema) (name inner : String) : Prop :=
  ∃ fields, schema.Defines name (.input fields) ∧ ∃ entry ∈ fields.entries, entry.2.core = inner

abbrev LeadsTo (schema : Schema) : String → String → Prop :=
  Relation.ReflTransGen schema.Contains

def IsRecursive (schema : Schema) (name : String) : Prop :=
  Relation.TransGen schema.Contains name name

/-- All that a type leads to can be in a variable, and nothing of it without end. -/
def Expands (schema : Schema) (name : String) : Prop :=
  ∀ inner, schema.LeadsTo name inner → schema.IsInput inner ∧ ¬ schema.IsRecursive inner

/-- A type to be expanded, and the input objects that it is inside of, the innermost first. -/
structure ExpansionCall where
  expanding : List String
  name : String

/-- One call makes another for a field of the input object that it enters. -/
inductive Opens (schema : Schema) : ExpansionCall → ExpansionCall → Prop where
  | field {expanding : List String} {name inner : String} (hn : name ∉ expanding)
      (hc : schema.Contains name inner) : Opens schema ⟨expanding, name⟩ ⟨name :: expanding, inner⟩

/-- The calls that one call makes, directly or not, itself included. -/
abbrev Makes (schema : Schema) : ExpansionCall → ExpansionCall → Prop :=
  Relation.ReflTransGen schema.Opens

def Passes (schema : Schema) (call : ExpansionCall) : Prop :=
  schema.IsInput call.name ∧ ∀ fields, schema.Defines call.name (.input fields) →
    call.name ∉ call.expanding

/-- The call is refused on the spot, for this reason. -/
inductive Refuses (schema : Schema) (position : Position) : ExpansionCall → TypingError → Prop where
  | unknownType {expanding : List String} {name : String} (hd : schema.definition? name = none) :
      Refuses schema position ⟨expanding, name⟩ (.unknownType name position)
  | notInput {expanding : List String} {name : String} (hc : schema.IsComposite name) :
      Refuses schema position ⟨expanding, name⟩ (.notInput name position)
  | recursiveInput {expanding : List String} {name : String} {fields : FieldMap}
      (hi : schema.Defines name (.input fields)) (he : name ∈ expanding) :
      Refuses schema position ⟨expanding, name⟩ (.recursiveInput name)

variable {schema : Schema} {position : Position}

theorem Contains.exists_defines {name inner : String} (h : schema.Contains name inner) :
    ∃ fields, schema.Defines name (.input fields) := by
  obtain ⟨fields, hi, _⟩ := h
  exact ⟨fields, hi⟩

theorem Refuses.not_passes {call : ExpansionCall} {error : TypingError}
    (h : schema.Refuses position call error) : ¬ schema.Passes call := by
  rintro ⟨hinput, hnot⟩
  cases h with
  | unknownType hnone =>
      obtain ⟨_, ⟨definition, hd, _⟩, _⟩ := hinput
      rw [hd] at hnone
      cases hnone
  | notInput hc => exact hinput.not_isComposite hc
  | recursiveInput hi he => exact hnot _ hi he

/-! ### One call -/

theorem expandInput_eq_ok {expanding : List String} {name : String} {core : InputCore}
    (h : schema.expandInput position expanding name = .ok core) :
    (schema.Defines name .scalar ∧ core = .scalar name) ∨
      (∃ values, schema.Defines name (.enum values) ∧ core = .enum values) ∨
      ∃ declared fields, schema.Defines name (.input declared) ∧ core = .object fields ∧
        name ∉ expanding ∧ List.Forall₂ (fun entry field => field.1 = entry.1 ∧
          field.2.wrapping = entry.2.wrapping ∧
          schema.expandInput position (name :: expanding) entry.2.core = .ok field.2.core)
          declared.entries fields := by
  unfold expandInput at h
  split at h
  · simp at h
  · next definition hd =>
    split at h
    · next hb =>
      cases h
      exact .inl ⟨⟨definition, hd, hb⟩, rfl⟩
    · next values hb =>
      cases h
      exact .inr (.inl ⟨values, ⟨definition, hd, hb⟩, rfl⟩)
    · next declared hb =>
      split at h
      · simp at h
      · next hn =>
        simp only [bind_eq_ok, pure_eq_ok] at h
        obtain ⟨fields, hm, rfl⟩ := h
        refine .inr (.inr ⟨declared, fields, ⟨definition, hd, hb⟩, rfl, hn, (mapM_eq_ok hm).imp ?_⟩)
        rintro ⟨key, type⟩ field hfield
        simp only [bind_eq_ok, pure_eq_ok] at hfield
        obtain ⟨core, hc, rfl⟩ := hfield
        exact ⟨rfl, rfl, hc⟩
    all_goals simp at h

theorem expandInput_eq_error {expanding : List String} {name : String} {error : TypingError}
    (h : schema.expandInput position expanding name = .error error) :
    schema.Refuses position ⟨expanding, name⟩ error ∨
      ∃ inner, schema.Opens ⟨expanding, name⟩ ⟨name :: expanding, inner⟩ ∧
        schema.expandInput position (name :: expanding) inner = .error error := by
  unfold expandInput at h
  split at h
  · next hd =>
    cases throw_eq_error.mp h
    exact .inl (.unknownType hd)
  · next definition hd =>
    have hcomposite (hc : definition.body.isComposite = true)
        (he : .notInput name position = error) :
        schema.Refuses position ⟨expanding, name⟩ error :=
      he ▸ .notInput ⟨definition.body, ⟨definition, hd, rfl⟩, hc⟩
    split at h
    · simp at h
    · simp at h
    · next declared hb =>
      split at h
      · next hn =>
        cases throw_eq_error.mp h
        exact .inl (.recursiveInput ⟨definition, hd, hb⟩ hn)
      · next hn =>
        simp only [bind_eq_error, pure_ne_error, and_false, exists_false, or_false] at h
        obtain ⟨entry, he, h⟩ := mapM_eq_error h
        simp only [bind_eq_error, pure_ne_error, and_false, exists_false, or_false] at h
        exact .inr ⟨entry.2.core, .field hn ⟨declared, ⟨definition, hd, hb⟩, entry, he, rfl⟩, h⟩
    all_goals
      next hb => exact .inl (hcomposite (by rw [hb]; rfl) (throw_eq_error.mp h))

/-! ### All calls -/

/-- Calls end: each enters an input object that the calls around it are not inside of. -/
theorem wellFounded_opens (schema : Schema) :
    WellFounded fun inner outer => schema.Opens outer inner := by
  refine Subrelation.wf ?_ (measure fun call => schema.unexpanded call.expanding).wf
  rintro _ _ ⟨hn, hc⟩
  obtain ⟨_, definition, hd, _⟩ := hc.exists_defines
  exact unexpanded_lt hd hn

theorem passes_of_expandInput_eq_ok {call : ExpansionCall} {core : InputCore}
    (h : schema.expandInput position call.expanding call.name = .ok core) :
    schema.Passes call := by
  rcases expandInput_eq_ok h with ⟨hb, _⟩ | ⟨values, hb, _⟩ | ⟨declared, fields, hb, _, hn, _⟩
  · exact ⟨⟨_, hb, rfl⟩, fun fields hi => by cases hb.unique hi⟩
  · exact ⟨⟨_, hb, rfl⟩, fun fields hi => by cases hb.unique hi⟩
  · exact ⟨⟨_, hb, rfl⟩, fun _ _ => hn⟩

theorem exists_expandInput_eq_ok_of_opens {call inner : ExpansionCall}
    (ho : schema.Opens call inner)
    (h : ∃ core, schema.expandInput position call.expanding call.name = .ok core) :
    ∃ core, schema.expandInput position inner.expanding inner.name = .ok core := by
  obtain ⟨_, fields, hi, entry, he, rfl⟩ := ho
  obtain ⟨core, h⟩ := h
  rcases expandInput_eq_ok h with ⟨hb, _⟩ | ⟨values, hb, _⟩ | ⟨declared, _, hb, _, _, hall⟩
  · cases hi.unique hb
  · cases hi.unique hb
  · cases hi.unique hb
    obtain ⟨field, _, _, _, hcore⟩ := exists_of_mem_forall₂ hall.flip he
    exact ⟨field.2.core, hcore⟩

theorem exists_refuses_of_expandInput_eq_error (call : ExpansionCall) {error : TypingError}
    (h : schema.expandInput position call.expanding call.name = .error error) :
    ∃ inner, schema.Makes call inner ∧ schema.Refuses position inner error := by
  induction call using (wellFounded_opens schema).induction with
  | _ call ih =>
      rcases expandInput_eq_error h with hr | ⟨inner, ho, he⟩
      · exact ⟨call, .refl, hr⟩
      · obtain ⟨last, hm, hr⟩ := ih _ ho he
        exact ⟨last, .head ho hm, hr⟩

/-- A call succeeds just if no call that it makes is refused on the spot. -/
theorem exists_expandInput_eq_ok_iff (call : ExpansionCall) :
    (∃ core, schema.expandInput position call.expanding call.name = .ok core) ↔
      ∀ inner, schema.Makes call inner → schema.Passes inner := by
  constructor
  · intro h inner hm
    induction hm using Relation.ReflTransGen.head_induction_on with
    | refl =>
        obtain ⟨core, h⟩ := h
        exact passes_of_expandInput_eq_ok h
    | head ho _ ih => exact ih (exists_expandInput_eq_ok_of_opens ho h)
  · intro h
    cases he : schema.expandInput position call.expanding call.name with
    | ok core => exact ⟨core, rfl⟩
    | error error =>
        obtain ⟨inner, hm, hr⟩ := exists_refuses_of_expandInput_eq_error call he
        exact absurd (h inner hm) hr.not_passes

/-! ### What is expanded -/

/-- What a type name stands for in a variable: a scalar, the values of an enum, or the fields of an
input object, each under its key and its wrappers with what the name of its type stands for. -/
inductive Stands (schema : Schema) : String → InputCore → Prop where
  | scalar {name : String} (hb : schema.Defines name .scalar) : Stands schema name (.scalar name)
  | enum {name : String} {values : List String} (hb : schema.Defines name (.enum values)) :
      Stands schema name (.enum values)
  | object {name : String} {declared : FieldMap} {cores : String → InputCore}
      (hb : schema.Defines name (.input declared))
      (hf : ∀ entry ∈ declared.entries, Stands schema entry.2.core (cores entry.2.core)) :
      Stands schema name (.object <| declared.entries.map fun entry =>
        (entry.1, ⟨entry.2.wrapping, cores entry.2.core⟩))

theorem Stands.unique {name : String} {core core' : InputCore} (h : schema.Stands name core)
    (h' : schema.Stands name core') : core = core' := by
  induction h generalizing core' with
  | scalar hb => cases h' with
    | scalar => rfl
    | enum hb' | object hb' => cases hb.unique hb'
  | enum hb => cases h' with
    | enum hb' =>
        cases hb.unique hb'
        rfl
    | scalar hb' | object hb' => cases hb.unique hb'
  | object hb _ ih => cases h' with
    | object hb' hf' =>
        cases hb.unique hb'
        congr 1
        exact List.map_congr_left fun entry he => by rw [ih entry he (hf' entry he)]
    | scalar hb' | enum hb' => cases hb.unique hb'

theorem stands_of_expandInput_eq_ok (call : ExpansionCall) {core : InputCore}
    (h : schema.expandInput position call.expanding call.name = .ok core) :
    schema.Stands call.name core := by
  induction call using (wellFounded_opens schema).induction generalizing core with
  | _ call ih =>
      rcases expandInput_eq_ok h with ⟨hb, rfl⟩ | ⟨values, hb, rfl⟩ |
        ⟨declared, fields, hb, rfl, hn, hall⟩
      · exact .scalar hb
      · exact .enum hb
      · let cores (inner : String) : InputCore :=
          (schema.expandInput position (call.name :: call.expanding) inner).toOption.getD
            (.scalar inner)
        have hfields : declared.entries.map
            (fun entry => (entry.1, ⟨entry.2.wrapping, cores entry.2.core⟩)) = fields := by
          rw [← List.forall₂_eq_eq_eq, List.forall₂_map_left_iff]
          refine hall.imp ?_
          rintro entry ⟨key, wrapping, core⟩ ⟨rfl, rfl, hcore⟩
          simp [cores, hcore, Except.toOption]
        rw [← hfields]
        refine .object hb fun entry he => ?_
        obtain ⟨field, _, _, _, hcore⟩ := exists_of_mem_forall₂ hall.flip he
        have hopen : schema.Opens call ⟨call.name :: call.expanding, entry.2.core⟩ :=
          .field hn ⟨declared, hb, entry, he, rfl⟩
        have hsame : cores entry.2.core = field.2.core := by simp [cores, hcore, Except.toOption]
        rw [hsame]
        exact ih _ hopen hcore

theorem stands_of_inputType_eq_ok {type : TypeRef} {input : InputType}
    (h : schema.inputType position type = .ok input) :
    input.wrapping = type.wrapping ∧ schema.Stands type.core input.core := by
  simp only [inputType, bind_eq_ok, pure_eq_ok] at h
  obtain ⟨core, hc, rfl⟩ := h
  exact ⟨rfl, stands_of_expandInput_eq_ok ⟨[], type.core⟩ hc⟩

/-! ### The calls for a variable -/

/-- How the calls for a variable are nested: each is inside of input objects that are all different,
that the type of the variable leads to, and that contain the type of the call. -/
structure Nested (schema : Schema) (start : String) (call : ExpansionCall) : Prop where
  leads : schema.LeadsTo start call.name
  nodup : call.expanding.Nodup
  declared : call.expanding ⊆ schema.definitions.keys
  contain : ∀ outer ∈ call.expanding, Relation.TransGen schema.Contains outer call.name

theorem nested_of_makes {start : String} {call : ExpansionCall}
    (h : schema.Makes ⟨[], start⟩ call) : schema.Nested start call := by
  induction h with
  | refl => exact ⟨.refl, .nil, by simp, by simp⟩
  | tail _ ho ih =>
      obtain ⟨hn, hc⟩ := ho
      obtain ⟨fields, hi⟩ := hc.exists_defines
      refine ⟨ih.leads.tail hc, List.nodup_cons.mpr ⟨hn, ih.nodup⟩,
        List.cons_subset.mpr ⟨hi.mem_keys, ih.declared⟩, List.forall_mem_cons.mpr ⟨.single hc, ?_⟩⟩
      exact fun outer ho => (ih.contain outer ho).tail hc

theorem Nested.length_le {start : String} {call : ExpansionCall} (h : schema.Nested start call) :
    call.expanding.length ≤ schema.definitions.keys.length :=
  (h.nodup.subperm h.declared).length_le

theorem exists_makes_of_leadsTo {call : ExpansionCall}
    (hp : ∀ inner, schema.Makes call inner → schema.Passes inner) {name : String}
    (h : schema.LeadsTo call.name name) :
    ∃ expanding, schema.Makes call ⟨expanding, name⟩ ∧ call.expanding <:+ expanding := by
  induction h with
  | refl => exact ⟨call.expanding, .refl, List.suffix_rfl⟩
  | tail _ hc ih =>
      obtain ⟨expanding, hm, hs⟩ := ih
      obtain ⟨fields, hi⟩ := hc.exists_defines
      exact ⟨_, hm.tail (.field ((hp _ hm).2 fields hi) hc), hs.trans (List.suffix_cons _ _)⟩

theorem exists_expandInput_eq_ok_iff_expands (position : Position) {name : String} :
    (∃ core, schema.expandInput position [] name = .ok core) ↔ schema.Expands name := by
  refine (exists_expandInput_eq_ok_iff ⟨[], name⟩).trans ⟨fun hp inner hl => ?_,
    fun he call hm => ?_⟩
  · obtain ⟨expanding, hm, _⟩ := exists_makes_of_leadsTo hp hl
    refine ⟨(hp _ hm).1, fun hr => ?_⟩
    -- The call for `inner` is followed by one that is inside of `inner` and is for `inner` again.
    obtain ⟨next, hc, hback⟩ := Relation.TransGen.head'_iff.mp hr
    obtain ⟨fields, hi⟩ := hc.exists_defines
    have hopen : schema.Opens ⟨expanding, inner⟩ ⟨inner :: expanding, next⟩ :=
      .field ((hp _ hm).2 fields hi) hc
    have hinside := hm.tail hopen
    obtain ⟨again, hm', hs⟩ :=
      exists_makes_of_leadsTo (fun call h => hp call (hinside.trans h)) hback
    exact (hp _ (hinside.trans hm')).2 fields hi (hs.subset List.mem_cons_self)
  · have hnested := nested_of_makes hm
    obtain ⟨hinput, hr⟩ := he call.name hnested.leads
    exact ⟨hinput, fun _ _ hmem => hr (hnested.contain call.name hmem)⟩

/-- Expanding the type of a variable ends, and exactly. No call calls itself without end: the input
objects that a call is inside of are all different, so there are at most as many of them as there
are definitions. The type is expanded just if all types that it leads to are defined, are input
types and do not contain themselves, however often it leads to them, and the error names one that is
not so. -/
theorem inputType_expands_exactly (schema : Schema) (position : Position) (type : TypeRef) :
    (WellFounded fun inner outer => schema.Opens outer inner) ∧
      (∀ call, schema.Makes ⟨[], type.core⟩ call →
        call.expanding.Nodup ∧ call.expanding.length ≤ schema.definitions.keys.length) ∧
      ((∃ input, schema.inputType position type = .ok input) ↔
        ∀ name, schema.LeadsTo type.core name → schema.IsInput name ∧ ¬ schema.IsRecursive name) ∧
      ∀ error, schema.inputType position type = .error error →
        ∃ name, schema.LeadsTo type.core name ∧
          ((error = .recursiveInput name ∧ schema.IsRecursive name) ∨
            (error = .unknownType name position ∧ schema.definition? name = none) ∨
            (error = .notInput name position ∧ schema.IsComposite name)) := by
  refine ⟨wellFounded_opens schema, fun call hm => ?_, ?_, fun error he => ?_⟩
  · have hnested := nested_of_makes hm
    exact ⟨hnested.nodup, hnested.length_le⟩
  · simp only [inputType, bind_eq_ok, pure_eq_ok]
    rw [← Expands, ← exists_expandInput_eq_ok_iff_expands position]
    constructor
    · rintro ⟨_, core, hc, _⟩
      exact ⟨core, hc⟩
    · rintro ⟨core, hc⟩
      exact ⟨_, core, hc, rfl⟩
  · simp only [inputType, bind_eq_error, pure_ne_error, and_false, exists_false, or_false] at he
    obtain ⟨call, hm, hr⟩ := exists_refuses_of_expandInput_eq_error ⟨[], type.core⟩ he
    have hnested := nested_of_makes hm
    cases hr with
    | unknownType hd => exact ⟨_, hnested.leads, .inr (.inl ⟨rfl, hd⟩)⟩
    | notInput hc => exact ⟨_, hnested.leads, .inr (.inr ⟨rfl, hc⟩)⟩
    | recursiveInput _ hmem =>
        exact ⟨_, hnested.leads, .inl ⟨rfl, hnested.contain _ hmem⟩⟩

def inputSchema : Schema :=
  .ofDocument
    [.type ⟨"Range", .input [("low", ⟨[], "Bound"⟩), ("high", ⟨[.notNull], "Bound"⟩)]⟩,
      .type ⟨"Bound", .input [("at", ⟨[], "Int"⟩)]⟩,
      .type ⟨"Tree", .input [("branches", ⟨[.list], "Branch"⟩)]⟩,
      .type ⟨"Branch", .input [("tree", ⟨[], "Tree"⟩)]⟩]

example : inputSchema.inputType ⟨1, 1⟩ ⟨[], "Range"⟩ =
    .ok ⟨[], .object [("low", ⟨[], .object [("at", ⟨[], .scalar "Int"⟩)]⟩),
      ("high", ⟨[.notNull], .object [("at", ⟨[], .scalar "Int"⟩)]⟩)]⟩ := by cbv

example : inputSchema.inputType ⟨1, 1⟩ ⟨[.list], "Branch"⟩ = .error (.recursiveInput "Branch") := by
  cbv

end QueryShape.Schema
