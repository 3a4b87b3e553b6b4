import QueryShape.Proofs.Everywhere
import QueryShape.Proofs.Meaning
import QueryShape.Proofs.SchemaTyping

/-!
# Responses

An answer has a value under the key of each field, and also answers every branch which applies to
its type. It answers the flattened selection as well.
-/

namespace QueryShape.Selection

mutual

/-- The value answers the selection on an object of the type `type`. What a field selects is
answered on an object of any type that it can have. -/
def Answers (schema : Schema) (type : String) : LinkedSelection → Json → Prop
  | ⟨_, _, fields, branches, _⟩, value =>
      (∃ members, value = .object members ∧ FieldsAnswer schema type fields members) ∧
        BranchesAnswer schema type branches value

def FieldsAnswer (schema : Schema) (type : String) :
    List (Field LinkedSelection) → List (String × Json) → Prop
  | [], _ => True
  | ⟨key, wrapping, core⟩ :: rest, members =>
      (∃ value, members.lookup key = some value ∧ CoreAnswers schema type wrapping core value) ∧
        FieldsAnswer schema type rest members

/-- The value is one of this core under its wrappers. The name of a type is never null. -/
def CoreAnswers (schema : Schema) (type : String) (wrapping : List Wrapper) :
    OutputCore LinkedSelection → Json → Prop
  | .scalar name, value => Wrapper.Admits wrapping true false (ScalarValue name) value
  | .enum values, value => Wrapper.Admits wrapping true false (EnumValue values) value
  | .typename, value => Wrapper.Admits wrapping true true (· = .string type) value
  | .selection nested, value => Wrapper.Admits wrapping true false (fun inner =>
      ∃ type' ∈ nested.possible, schema.isAbstract type' = false ∧
        nested.Answers schema type' inner) value

def BranchesAnswer (schema : Schema) (type : String) : List LinkedSelection → Json → Prop
  | [], _ => True
  | branch :: rest, value => (type ∈ branch.possible → branch.Answers schema type value) ∧
      BranchesAnswer schema type rest value

end

def FieldAnswers (schema : Schema) (type : String) (members : List (String × Json))
    (field : Field LinkedSelection) : Prop :=
  ∃ value, members.lookup field.key = some value ∧
    CoreAnswers schema type field.type.wrapping field.type.core value

variable {schema : Schema} {type : String} {value : Json}

theorem fieldsAnswer_iff {fields : List (Field LinkedSelection)} {members : List (String × Json)} :
    FieldsAnswer schema type fields members ↔
      ∀ field ∈ fields, FieldAnswers schema type members field := by
  induction fields with
  | nil => simp [FieldsAnswer]
  | cons field rest ih =>
      obtain ⟨key, wrapping, core⟩ := field
      rw [FieldsAnswer, ih, List.forall_mem_cons]
      rfl

theorem branchesAnswer_iff {branches : List LinkedSelection} :
    BranchesAnswer schema type branches value ↔
      ∀ branch ∈ branches, type ∈ branch.possible → branch.Answers schema type value := by
  induction branches with
  | nil => simp [BranchesAnswer]
  | cons branch rest ih => rw [BranchesAnswer, ih, List.forall_mem_cons]

theorem answers_iff {selection : LinkedSelection} : selection.Answers schema type value ↔
    (∃ members, value = .object members ∧
      ∀ field ∈ selection.fields, FieldAnswers schema type members field) ∧
      ∀ branch ∈ selection.branches, type ∈ branch.possible → branch.Answers schema type value := by
  obtain ⟨on, possible, fields, branches, spreads⟩ := selection
  rw [Answers, branchesAnswer_iff]
  simp only [fieldsAnswer_iff]

theorem Answers.field {selection : LinkedSelection} {members : List (String × Json)}
    (h : selection.Answers schema type (.object members)) {field : Field LinkedSelection}
    (hf : field ∈ selection.fields) : FieldAnswers schema type members field := by
  obtain ⟨⟨members', hv, hfields⟩, _⟩ := answers_iff.mp h
  cases hv
  exact hfields field hf

theorem Answers.branch {selection : LinkedSelection} (h : selection.Answers schema type value)
    {branch : LinkedSelection} (hb : branch ∈ selection.branches) (ht : type ∈ branch.possible) :
    branch.Answers schema type value :=
  (answers_iff.mp h).2 branch hb ht

/-! ### Flattening -/

theorem Typed.possible_eq {selection other : LinkedSelection} (hs : selection.Typed schema)
    (ho : other.Typed schema) (hon : selection.on = other.on) :
    selection.possible = other.possible := by
  rw [(everywhere_iff.mp hs).1.2, (everywhere_iff.mp ho).1.2, hon]

theorem answers_absorb {selection other : LinkedSelection}
    (hs : selection.Answers schema type value) (ho : other.Answers schema type value) :
    (selection.absorb other).Answers schema type value := by
  obtain ⟨⟨members, rfl, hfields⟩, hbranches⟩ := answers_iff.mp hs
  refine answers_iff.mpr ⟨⟨members, rfl, List.forall_mem_append.mpr ⟨hfields, ?_⟩⟩,
    List.forall_mem_append.mpr ⟨hbranches, (answers_iff.mp ho).2⟩⟩
  exact fun field hf => ho.field hf

theorem answers_collapse {selection : LinkedSelection} (ht : selection.Typed schema)
    (hp : type ∈ selection.possible) (h : selection.Answers schema type value) :
    selection.collapse.Answers schema type value := by
  obtain ⟨⟨members, rfl, hfields⟩, hbranches⟩ := answers_iff.mp h
  have hfolded : ∀ branch ∈ selection.branches, branch.on = selection.on →
      branch.Answers schema type (.object members) := by
    intro branch hb hon
    apply hbranches branch hb
    rwa [Typed.possible_eq ((everywhere_iff.mp ht).2.2 branch hb) ht hon]
  refine answers_iff.mpr ⟨⟨members, rfl, List.forall_mem_append.mpr ⟨hfields, ?_⟩⟩, ?_⟩
  · intro field hf
    obtain ⟨branch, hb, hf⟩ := List.mem_flatMap.mp hf
    split at hf
    · next hon => exact (hfolded branch hb hon).field hf
    · cases hf
  · intro inner hi
    obtain ⟨branch, hb, hi⟩ := List.mem_flatMap.mp hi
    split at hi
    · next hon => exact (hfolded branch hb hon).branch hi
    · rw [List.mem_singleton.mp hi]
      exact hbranches branch hb

/-- Merging branches keeps what they are answered with on an object of this type. -/
theorem answers_mergeSiblings {branches : List LinkedSelection}
    (ht : ∀ branch ∈ branches, branch.Typed schema)
    (h : ∀ branch ∈ branches, type ∈ branch.possible → branch.Answers schema type value) :
    ∀ branch ∈ mergeSiblings branches, branch.Typed schema ∧
      (type ∈ branch.possible → branch.Answers schema type value) := by
  refine forall_mem_mergeSiblings ?_ fun branch hb => ⟨ht branch hb, h branch hb⟩
  rintro first other hon ⟨hft, hf⟩ ⟨hot, ho⟩
  refine ⟨everywhere_absorb hon hft hot, fun hp => answers_absorb (hf hp) (ho ?_)⟩
  rwa [← Typed.possible_eq hft hot hon]

private theorem fieldAnswers_mapNested {f : LinkedSelection → LinkedSelection}
    {members : List (String × Json)} {field : Field LinkedSelection}
    (hf : ∀ nested, field.nested? = some nested → (f nested).possible = nested.possible ∧
      ∀ type' ∈ nested.possible, ∀ value, nested.Answers schema type' value →
        (f nested).Answers schema type' value)
    (h : FieldAnswers schema type members field) :
    FieldAnswers schema type members (field.mapNested f) := by
  obtain ⟨value, hl, hv⟩ := h
  refine ⟨value, hl, ?_⟩
  obtain ⟨key, wrapping, core⟩ := field
  cases core with
  | scalar _ => exact hv
  | enum _ => exact hv
  | typename => exact hv
  | selection nested =>
      obtain ⟨hpossible, hanswers⟩ := hf nested rfl
      refine Wrapper.Admits.mono (fun inner hi => ?_) hv
      obtain ⟨type', ht, hconcrete, hi⟩ := hi
      exact ⟨type', hpossible ▸ ht, hconcrete, hanswers type' ht inner hi⟩

theorem answers_flatten {selection : LinkedSelection} (ht : selection.Typed schema)
    (hp : type ∈ selection.possible) (h : selection.Answers schema type value) :
    selection.flatten.Answers schema type value := by
  induction selection using flatten.induct generalizing type value with
  | case1 selection ihNested ihBranch =>
      obtain ⟨_, htfields, htbranches⟩ := everywhere_iff.mp (everywhere_collapse ht)
      obtain ⟨⟨members, hv, hfields⟩, hbranches⟩ := answers_iff.mp (answers_collapse ht hp h)
      rw [flatten_eq]
      refine answers_iff.mpr ⟨⟨members, hv, List.forall_mem_map.mpr fun field hf => ?_⟩,
        List.forall_mem_map.mpr fun branch hb hp => ?_⟩
      · apply fieldAnswers_mapNested _ (hfields field hf)
        intro nested hn
        refine ⟨flatten_possible nested, fun type' hp' value' h' => ?_⟩
        exact ihNested field hf nested hn ((htfields field hf).2 nested hn) hp' h'
      · rw [flatten_possible] at hp
        obtain ⟨htbranch, hbranch⟩ := answers_mergeSiblings htbranches hbranches branch hb
        exact ihBranch branch hb htbranch hp (hbranch hp)

end QueryShape.Selection
