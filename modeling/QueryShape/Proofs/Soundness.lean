import QueryShape.DocumentTyping
import QueryShape.Proofs.CustomScalars
import QueryShape.Proofs.Response
import QueryShape.Proofs.SelectionShape

/-!
# Signatures describe responses

Whatever answers an operation's linked selection is of its result shape: the branch of the object's
own type admits it, or the unknown object does.
-/

namespace QueryShape

open Outcome

namespace Schema

theorem possibleTypes_of_not_isAbstract {schema : Schema} {type : String}
    (h : schema.isAbstract type = false) : schema.possibleTypes type = [type] := by
  unfold isAbstract at h
  unfold possibleTypes
  cases hd : schema.definition? type with
  | none => rfl
  | some definition =>
      rw [hd] at h
      cases hb : definition.body <;> simp_all [TypeBody.isAbstract]

end Schema

namespace Selection

variable {schema : Schema} {options : Options}

theorem exists_branch_of_isExhaustive {selection : LinkedSelection} {type : String}
    (ht : selection.Typed schema) (hp : type ∈ selection.possible)
    (hc : schema.isAbstract type = false) (he : selection.isExhaustive = true) :
    ∃ branch ∈ selection.branches, type ∈ branch.possible := by
  unfold isExhaustive at he
  obtain ⟨_, hall⟩ := Bool.and_eq_true_iff.mp he
  obtain ⟨branch, hb, hon⟩ := List.any_eq_true.mp (List.all_eq_true.mp hall type hp)
  refine ⟨branch, hb, ?_⟩
  have hscope := (everywhere_iff.mp ((everywhere_iff.mp ht).2.2 branch hb)).1.2
  rw [hscope, beq_iff_eq.mp hon, Schema.possibleTypes_of_not_isAbstract hc]
  exact List.mem_singleton.mpr rfl

theorem anyAdmits_withFallback {selection : LinkedSelection} {shapes : List Shape}
    {members : List (String × Json)}
    (h : selection.isExhaustive = true → Shape.AnyAdmits shapes (.object members)) :
    withFallback selection shapes = [] ∨
      Shape.AnyAdmits (withFallback selection shapes) (.object members) := by
  unfold withFallback
  split
  · next hc =>
    rcases Bool.or_eq_true_iff.mp hc with hempty | he
    · exact .inl (List.isEmpty_iff.mp hempty)
    · exact .inr (h he)
  · refine .inr (Shape.anyAdmits_iff.mpr ⟨.anyObject, ?_, ⟨members, rfl, trivial⟩⟩)
    exact List.mem_append_right _ (List.mem_singleton.mpr rfl)

mutual

/-- An answer to a typed selection is of the selection's shape. -/
theorem admits_shape {selection : LinkedSelection} {type : String} {value : Json}
    (ht : selection.Typed schema) (hp : type ∈ selection.possible)
    (hc : schema.isAbstract type = false) (h : selection.Answers schema type value) :
    (selection.shape options).Admits value := by
  match selection with
  | ⟨on, possible, fields, branches, spreads⟩ =>
      obtain ⟨_, htfields, htbranches⟩ := everywhere_iff.mp ht
      obtain ⟨⟨members, hv, hfields⟩, hbranches⟩ := answers_iff.mp h
      rw [shape, hv]
      refine Shape.admits_ofParts (admits_properties hp htfields hfields)
        (anyAdmits_withFallback fun he => ?_)
      obtain ⟨branch, hb, hpb⟩ := exists_branch_of_isExhaustive ht hp hc he
      rw [← hv, Shape.anyAdmits_iff, shapes_eq_map]
      exact ⟨branch.shape options, List.mem_map_of_mem hb,
        admits_shapes htbranches hc branch hb hpb (hbranches branch hb hpb)⟩

theorem admits_properties {fields : List (Field LinkedSelection)} {on type : String}
    {possible : List String} {members : List (String × Json)} (hp : type ∈ possible)
    (ht : ∀ field ∈ fields, FieldEverywhere schema.Scopes schema.Mirrors on field)
    (h : ∀ field ∈ fields, FieldAnswers schema type members field) :
    Shape.PropertiesAdmit (properties options possible fields) members := by
  match fields with
  | [] => trivial
  | ⟨key, wrapping, core⟩ :: rest =>
      obtain ⟨htfirst, htrest⟩ := List.forall_mem_cons.mp ht
      obtain ⟨⟨value, hl, hv⟩, hrest⟩ := List.forall_mem_cons.mp h
      refine ⟨fun _ => ⟨value, hl, ?_⟩, admits_properties hp htrest hrest⟩
      exact admits_coreShape hp htfirst hv

theorem admits_coreShape {wrapping : List Wrapper} {core : OutputCore LinkedSelection}
    {on key type : String} {possible : List String} {value : Json} (hp : type ∈ possible)
    (ht : FieldEverywhere schema.Scopes schema.Mirrors on ⟨key, wrapping, core⟩)
    (h : CoreAnswers schema type wrapping core value) :
    (coreShape options possible wrapping core).Admits value := by
  match core with
  | .scalar name => exact Shape.admits_wrapped.mpr (h.mono fun _ => Shape.admits_ofScalar.mpr)
  | .enum values => exact Shape.admits_wrapped.mpr (h.mono fun _ => Shape.admits_ofNames.mpr)
  | .typename =>
      refine Shape.admits_wrapped.mpr (h.mono ?_)
      rintro _ rfl
      exact Shape.admits_ofTypename hp
  | .selection nested =>
      refine Shape.admits_wrapped.mpr (h.mono ?_)
      rintro inner ⟨type', hp', hc, hi⟩
      exact admits_shape (ht.2 nested rfl) hp' hc hi

theorem admits_shapes {branches : List LinkedSelection} {type : String} {value : Json}
    (ht : ∀ branch ∈ branches, branch.Typed schema) (hc : schema.isAbstract type = false) :
    ∀ branch ∈ branches, type ∈ branch.possible → branch.Answers schema type value →
      (branch.shape options).Admits value := by
  match branches with
  | [] => simp
  | first :: rest =>
      obtain ⟨htfirst, htrest⟩ := List.forall_mem_cons.mp ht
      exact List.forall_mem_cons.mpr
        ⟨fun hp h => admits_shape htfirst hp hc h, admits_shapes htrest hc⟩

end

end Selection

/-- The signature's result admits every answer to the operation, on whichever object of the root's
possible types it is executed. -/
def Operation.DescribedBy (schema : Schema) (operation : Operation LinkedSelection)
    (signature : Signature) : Prop :=
  ∀ type ∈ operation.selection.possible, schema.isAbstract type = false →
    ∀ value, operation.selection.Answers schema type value → signature.result.Admits value

theorem Operation.describedBy_signature {schema : Schema} {options : Options}
    {operation : Operation LinkedSelection} {signature : Signature}
    (ht : operation.selection.Typed schema)
    (h : operation.flatten.signature options = .ok signature) :
    operation.DescribedBy schema signature := by
  intro type hp hc value hv
  unfold Operation.signature at h
  simp only [Selection.shapeAt_eq, bind_eq_ok, pure_eq_ok] at h
  obtain ⟨_, ⟨_, _, rfl⟩, rfl⟩ := h
  rw [Shape.admits_normalize]
  refine Selection.admits_shape (Selection.everywhere_flatten ht) ?_ hc
    (Selection.answers_flatten ht hp hv)
  rwa [Operation.flatten, Selection.flatten_possible]

/-- The signatures of a document describe the responses to it: if it has signatures, then it is
resolved and linked, and whatever answers the linked selection of an operation, on any object type
that the root can have, is admitted by the result of the signature at the same place. -/
theorem Schema.signatures_describe (schema : Schema) (options : Options)
    (document : Source.Document) (signatures : List Signature)
    (h : schema.signatures options document = .ok signatures) :
    ∃ resolved linked, schema.resolve options.maxDepth document = .ok resolved ∧
      resolved.link options.maxDepth = .ok linked ∧
      List.Forall₂ (Operation.DescribedBy schema) linked signatures := by
  unfold Schema.signatures at h
  simp only [bind_eq_ok] at h
  obtain ⟨resolved, hr, linked, hl, h⟩ := h
  refine ⟨resolved, linked, hr, hl, ?_⟩
  have htyped := Resolved.typed_link (Schema.typed_resolve hr) hl
  have hsignatures := List.forall₂_map_left_iff.mp (mapM_eq_ok h)
  refine ((List.forall₂_and_left linked signatures).mpr ⟨htyped, hsignatures⟩).imp ?_
  rintro operation signature ⟨ht, hs⟩
  exact Operation.describedBy_signature ht hs

def heroSchema : Schema :=
  .ofDocument
    [.type ⟨"Query", .object [("hero", ⟨[], "Character"⟩)] []⟩,
      .type ⟨"Character", .interface [("name", ⟨[.notNull], "String"⟩)]⟩,
      .type ⟨"Human", .object [("name", ⟨[.notNull], "String"⟩)] ["Character"]⟩,
      .type ⟨"Droid", .object [("name", ⟨[.notNull], "String"⟩), ("function", ⟨[], "String"⟩)]
        ["Character"]⟩]

def heroDocument : Source.Document :=
  [.operation { position := ⟨1, 1⟩, kind := .query, items := [.field ⟨1, 3⟩ none "hero"
      [.field ⟨1, 10⟩ none "name" [], .spread "Function"]] },
    .fragment ⟨⟨2, 1⟩, "Function", "Droid", [.field ⟨2, 20⟩ none "function" []]⟩]

def heroLinked : List (Operation LinkedSelection) :=
  let string (key : String) (wrapping : List Wrapper) : Field LinkedSelection :=
    ⟨key, wrapping, .scalar "String"⟩
  let droid : LinkedSelection := ⟨"Droid", ["Droid"], [string "function" []], [], []⟩
  let hero : LinkedSelection :=
    ⟨"Character", ["Human", "Droid"], [string "name" [.notNull]], [droid], []⟩
  [⟨.query, none, ⟨"Query", ["Query"], [⟨"hero", [], .selection hero⟩], [], []⟩, []⟩]

def heroSignatures : List Signature :=
  [⟨.query, none, .object [("hero", .nullable (.intersection
    [.object [("name", .string)],
      .union [.object [("function", .nullable .string)], .anyObject]]))], []⟩]

def heroResponse : Json :=
  .object [("hero", .object [("function", .null), ("name", .string "R2-D2")])]

theorem Schema.signatures_describe_heroDocument :
    heroSchema.signatures {} heroDocument = .ok heroSignatures ∧
      ∀ signature ∈ heroSignatures, signature.result.Admits heroResponse := by
  have h : heroSchema.signatures {} heroDocument = .ok heroSignatures := by cbv
  refine ⟨h, ?_⟩
  obtain ⟨resolved, linked, hr, hl, hdescribed⟩ :=
    heroSchema.signatures_describe {} heroDocument heroSignatures h
  have hlinked : (heroSchema.resolve 64 heroDocument >>= fun resolved => resolved.link 64) =
      .ok heroLinked := by cbv
  have hsame : linked = heroLinked := by
    rw [hr] at hlinked
    exact Except.ok.inj (hl.symm.trans hlinked)
  rw [hsame] at hdescribed
  intro signature hs
  obtain ⟨operation, ho, hadmits⟩ := exists_of_mem_forall₂ hdescribed hs
  rw [heroLinked, List.mem_singleton] at ho
  subst ho
  apply hadmits "Query"
  · decide
  · cbv
  · have hdroid : heroSchema.isAbstract "Droid" = false := by cbv
    simp [heroResponse, Selection.Answers, Selection.FieldsAnswer, Selection.BranchesAnswer,
      Selection.CoreAnswers, Wrapper.Admits, ScalarValue, List.lookup, hdroid]

end QueryShape
