import QueryShape.DocumentTyping
import QueryShape.Proofs.Echoes
import QueryShape.Proofs.Everywhere
import QueryShape.Proofs.SelectionShape
import QueryShape.Proofs.ShapeParts

/-!
# Well-formed signatures

Typing adds null to a shape only once, and never to a member of a union. Unless an enum is empty,
each union of the normal form then has at least two members.
-/

namespace QueryShape

open Outcome

namespace Shape

def isNullable : Shape → Bool
  | .nullable _ => true
  | _ => false

/-- What is asked of each shape inside a well-formed one. -/
def WellFormedHere : Shape → Prop
  | .union members | .intersection members =>
      2 ≤ members.length ∧ ∀ member ∈ members, member.isNullable = false
  | .object properties => (properties.map Prod.fst).Nodup
  | .nullable shape => shape.isNullable = false
  | .boolean | .string | .number | .literal _ | .reference _ | .list _ => True

/-- Unions and intersections have at least two members, none of which is nullable, objects have each
key once, and what is nullable is not nullable without that. -/
def WellFormed (shape : Shape) : Prop := ∀ inner ∈ shape.preorder, inner.WellFormedHere

instance : DecidablePred WellFormedHere
  | .union members | .intersection members =>
      inferInstanceAs
        (Decidable (2 ≤ members.length ∧ ∀ member ∈ members, member.isNullable = false))
  | .object properties => inferInstanceAs (Decidable (properties.map Prod.fst).Nodup)
  | .nullable shape => inferInstanceAs (Decidable (shape.isNullable = false))
  | .boolean | .string | .number | .literal _ | .reference _ | .list _ => .isTrue trivial

instance : DecidablePred WellFormed := fun shape =>
  inferInstanceAs (Decidable (∀ inner ∈ shape.preorder, inner.WellFormedHere))

/-! ### Shapes in which null is said sparingly -/

def SparingHere : Shape → Prop
  | .union members | .intersection members =>
      members ≠ [] ∧ ∀ member ∈ members, member.isNullable = false
  | .nullable shape => shape.isNullable = false
  | .boolean | .string | .number | .literal _ | .reference _ | .list _ | .object _ => True

/-- No union or intersection is empty or has a nullable member, and nothing is made nullable
twice. -/
def Sparing (shape : Shape) : Prop := ∀ inner ∈ shape.preorder, inner.SparingHere

theorem sparing_iff {shape : Shape} :
    shape.Sparing ↔ shape.SparingHere ∧ ∀ part ∈ shape.parts, part.Sparing :=
  forall_mem_preorder_iff

theorem Sparing.of_mem_preorder {shape inner : Shape} (h : shape.Sparing)
    (hi : inner ∈ shape.preorder) : inner.Sparing := by
  induction shape using induction with
  | step shape ih =>
      rcases mem_preorder_iff.mp hi with rfl | ⟨part, hp, hi⟩
      · exact h
      · exact ih part hp ((sparing_iff.mp h).2 part hp) hi

/-- Normalising does not make a shape nullable. -/
theorem Sparing.isNullable_normalize {shape : Shape} (h : shape.Sparing)
    (hn : shape.isNullable = false) : shape.normalize.isNullable = false := by
  induction shape using induction with
  | step shape ih =>
      obtain ⟨hhere, hparts⟩ := sparing_iff.mp h
      cases ho : shape.only? with
      | some only =>
          have hp : only ∈ shape.parts := by simp [parts_of_only? ho]
          rw [normalize_of_only? ho]
          apply ih only hp (hparts only hp)
          unfold only? at ho
          split at ho <;> cases ho <;> exact hhere.2 only (List.mem_singleton_self only)
      | none =>
          cases shape with
          | boolean | string | number | literal | reference | list | object => rfl
          | nullable => cases hn
          | union => rw [normalize_union_of_only? ho]; rfl
          | intersection => rw [normalize_intersection_of_only? ho]; rfl

theorem Sparing.wellFormedHere_normalize {shape : Shape} (h : shape.Sparing)
    (ho : shape.only? = none) : shape.normalize.WellFormedHere := by
  obtain ⟨hhere, hparts⟩ := sparing_iff.mp h
  -- There are members, and not just one.
  have hmany {members : List Shape} (hne : members ≠ []) (hone : ∀ only, members ≠ [only]) :
      2 ≤ (members.map normalize).length := by
    match members with
    | [] => exact absurd rfl hne
    | [only] => exact absurd rfl (hone only)
    | _ :: _ :: _ => simp
  have hmembers {members : List Shape} (hm : ∀ member ∈ members, member.Sparing)
      (hn : ∀ member ∈ members, member.isNullable = false) :
      ∀ member ∈ members.map normalize, member.isNullable = false :=
    List.forall_mem_map.mpr fun member hmem =>
      (hm member hmem).isNullable_normalize (hn member hmem)
  cases shape with
  | boolean | string | number | literal | reference | list => trivial
  | object properties => exact OrderedMap.nodup _
  | nullable inner =>
      exact (hparts inner (List.mem_singleton_self inner)).isNullable_normalize hhere
  | union members =>
      rw [normalize_union_of_only? ho]
      exact ⟨hmany hhere.1 (by rintro only rfl; cases ho), hmembers hparts hhere.2⟩
  | intersection members =>
      rw [normalize_intersection_of_only? ho]
      exact ⟨hmany hhere.1 (by rintro only rfl; cases ho), hmembers hparts hhere.2⟩

theorem Sparing.wellFormed_normalize {shape : Shape} (h : shape.Sparing) :
    shape.normalize.WellFormed := by
  intro inner hi
  obtain ⟨source, hs, ho, rfl⟩ := exists_of_mem_preorder_normalize hi
  exact (h.of_mem_preorder hs).wellFormedHere_normalize ho

/-! ### Shapes of types -/

/-- Null can be added to the shape without saying it twice. -/
structure TakesNull (shape : Shape) : Prop where
  sparing : shape.Sparing
  isNullable : shape.isNullable = false

theorem sparing_orNull {shape : Shape} (h : shape.TakesNull) (nullable : Bool) :
    (orNull nullable shape).Sparing := by
  have hnullable : (Shape.nullable shape).Sparing :=
    sparing_iff.mpr ⟨h.isNullable, List.forall_mem_singleton.mpr h.sparing⟩
  cases nullable with
  | false => exact h.sparing
  | true => exact hnullable

theorem sparing_wrapped {core : Shape} (h : core.TakesNull) (wrapping : List Wrapper)
    (nullable never : Bool) : (wrapped wrapping nullable never core).Sparing := by
  induction wrapping generalizing nullable with
  | nil => exact sparing_orNull h _
  | cons wrapper inner ih =>
      cases wrapper with
      | list =>
          have hlist : (list (wrapped inner true never core)).TakesNull :=
            ⟨sparing_iff.mpr ⟨trivial, List.forall_mem_singleton.mpr (ih true)⟩, rfl⟩
          exact sparing_orNull hlist nullable
      | notNull => exact ih false

theorem takesNull_of_parts_eq_nil {shape : Shape} (hp : shape.parts = [])
    (hn : shape.isNullable = false) (h : shape.SparingHere) : shape.TakesNull :=
  ⟨sparing_iff.mpr ⟨h, by simp [hp]⟩, hn⟩

theorem takesNull_ofScalar (name : String) : (ofScalar name).TakesNull := by
  unfold ofScalar
  split <;> exact takesNull_of_parts_eq_nil rfl rfl trivial

theorem takesNull_ofNames {names : List String} (h : names ≠ []) : (ofNames names).TakesNull := by
  refine ⟨sparing_iff.mpr ⟨⟨by simpa using h, ?_⟩, ?_⟩, rfl⟩
  · simp [isNullable]
  · intro member hm
    obtain ⟨name, _, rfl⟩ := List.mem_map.mp hm
    exact sparing_iff.mpr ⟨trivial, by simp [parts]⟩

theorem takesNull_ofTypename (exact : Bool) (possible : List String) :
    (ofTypename exact possible).TakesNull := by
  unfold ofTypename
  split
  · exact takesNull_of_parts_eq_nil rfl rfl trivial
  · split <;> exact takesNull_of_parts_eq_nil rfl rfl trivial
  · next hne _ => exact takesNull_ofNames hne

theorem takesNull_ofParts {properties : List (String × Shape)} {branches : List Shape}
    (hp : ∀ property ∈ properties, property.2.Sparing)
    (hb : ∀ branch ∈ branches, branch.TakesNull) : (ofParts properties branches).TakesNull := by
  have hobject : (object properties).TakesNull :=
    ⟨sparing_iff.mpr ⟨trivial, List.forall_mem_map.mpr hp⟩, rfl⟩
  have hunion (hne : branches ≠ []) : (union branches).TakesNull :=
    ⟨sparing_iff.mpr ⟨⟨hne, fun branch hm => (hb branch hm).isNullable⟩,
      fun branch hm => (hb branch hm).sparing⟩, rfl⟩
  cases branches with
  | nil => cases properties <;> exact hobject
  | cons branch rest =>
      have hunion := hunion (List.cons_ne_nil branch rest)
      cases properties with
      | nil => exact hunion
      | cons property others =>
          have hboth : ∀ part ∈ [object (property :: others), union (branch :: rest)],
              part.TakesNull := by
            simpa using ⟨hobject, hunion⟩
          exact ⟨sparing_iff.mpr ⟨⟨by simp, fun part hm => (hboth part hm).isNullable⟩,
            fun part hm => (hboth part hm).sparing⟩, rfl⟩

end Shape

namespace Selection

abbrev NoEmptyEnum (selection : LinkedSelection) : Prop :=
  selection.Everywhere (fun _ _ => True) fun _ field => field.type.core ≠ .enum []

theorem takesNull_withFallback {selection : LinkedSelection} {shapes : List Shape}
    (h : ∀ shape ∈ shapes, shape.TakesNull) :
    ∀ shape ∈ withFallback selection shapes, shape.TakesNull := by
  unfold withFallback
  split
  · exact h
  · rw [List.forall_mem_append, List.forall_mem_singleton]
    exact ⟨h, Shape.takesNull_of_parts_eq_nil rfl rfl trivial⟩

theorem takesNull_shape (options : Options) {selection : LinkedSelection}
    (h : selection.NoEmptyEnum) : (selection.shape options).TakesNull := by
  induction selection using Selection.induction with
  | step selection ihNested ihBranch =>
      obtain ⟨_, hfields, hbranches⟩ := everywhere_iff.mp h
      rw [shape_eq]
      refine Shape.takesNull_ofParts (List.forall_mem_map.mpr fun field hf => ?_)
        (takesNull_withFallback (List.forall_mem_map.mpr fun branch hb =>
          ihBranch branch hb (hbranches branch hb)))
      obtain ⟨hne, hinner⟩ := hfields field hf
      have hnested := ihNested field hf
      obtain ⟨key, wrapping, core⟩ := field
      cases core with
      | scalar name => exact Shape.sparing_wrapped (Shape.takesNull_ofScalar name) wrapping _ _
      | enum values =>
          refine Shape.sparing_wrapped (Shape.takesNull_ofNames ?_) wrapping _ _
          rintro rfl
          exact hne rfl
      | typename =>
          exact Shape.sparing_wrapped (Shape.takesNull_ofTypename _ _) wrapping _ _
      | selection nested =>
          exact Shape.sparing_wrapped (hnested nested rfl (hinner nested rfl)) wrapping _ _

end Selection

namespace InputCore

mutual

def NoEmptyEnum : InputCore → Prop
  | .scalar _ => True
  | .enum values => values ≠ []
  | .object fields => NoEmptyEnumIn fields

def NoEmptyEnumIn : List (String × Wrapped InputCore) → Prop
  | [] => True
  | (_, ⟨_, core⟩) :: rest => core.NoEmptyEnum ∧ NoEmptyEnumIn rest

end

mutual

theorem takesNull_shape (core : InputCore) (h : core.NoEmptyEnum) : core.shape.TakesNull := by
  match core with
  | .scalar name =>
      rw [shape]
      exact Shape.takesNull_ofScalar name
  | .enum values =>
      rw [shape]
      exact Shape.takesNull_ofNames h
  | .object fields =>
      rw [shape]
      exact ⟨Shape.sparing_iff.mpr ⟨trivial, List.forall_mem_map.mpr (sparing_properties fields h)⟩,
        rfl⟩

theorem sparing_properties (fields : List (String × Wrapped InputCore)) (h : NoEmptyEnumIn fields) :
    ∀ property ∈ properties fields, property.2.Sparing := by
  match fields with
  | [] => simp [properties]
  | (key, ⟨wrapping, core⟩) :: rest =>
      rw [properties, List.forall_mem_cons]
      exact ⟨Shape.sparing_wrapped (takesNull_shape core h.1) wrapping true false,
        sparing_properties rest h.2⟩

end

end InputCore

/-- No enum in the operation, be it in the type of a field or of a variable, is without values. -/
structure Operation.NoEmptyEnum (operation : Operation LinkedSelection) : Prop where
  selection : operation.selection.NoEmptyEnum
  vars : ∀ var ∈ operation.vars, var.2.core.NoEmptyEnum

/-- The shapes of the results and of the variables are well-formed whenever operations can be typed,
provided that no enum in them is without values: such an enum has an empty union for its shape. -/
theorem signatures_wellFormed (options : Options) (operations : List (Operation LinkedSelection))
    (he : ∀ operation ∈ operations, operation.NoEmptyEnum) (result : List Signature)
    (h : signatures options operations = .ok result) :
    ∀ signature ∈ result, signature.result.WellFormed ∧
      ∀ var ∈ signature.vars, var.2.WellFormed := by
  intro signature hs
  obtain ⟨operation, ho, hsignature⟩ := exists_of_mem_forall₂ (mapM_eq_ok h) hs
  obtain ⟨hselection, hvars⟩ := he operation ho
  simp only [Operation.signature, Selection.shapeAt_eq, bind_eq_ok, pure_eq_ok] at hsignature
  obtain ⟨_, ⟨_, _, rfl⟩, rfl⟩ := hsignature
  refine ⟨(Selection.takesNull_shape options hselection).sparing.wellFormed_normalize,
    List.forall_mem_map.mpr fun var hv => ?_⟩
  have hcore := InputCore.takesNull_shape var.2.core (hvars var hv)
  exact (Shape.sparing_wrapped hcore var.2.wrapping true false).wellFormed_normalize

def onlyPet : LinkedSelection :=
  ⟨"Pet", ["Cat"], [],
    [⟨"Cat", ["Cat"], [⟨"mood", [.notNull, .notNull], .enum ["SLEEPY"]⟩], [], []⟩], []⟩

def oddOperation : Operation LinkedSelection :=
  ⟨.query, none,
    ⟨"Query", ["Query"],
      [⟨"type", [.list], .typename⟩, ⟨"pet", [], .selection onlyPet⟩,
        ⟨"type", [.list, .notNull], .typename⟩], [], []⟩,
    [("mood", ⟨[.list], .enum ["SLEEPY"]⟩)]⟩

def oddSignatures : List Signature :=
  [⟨.query, none,
    .object [("type", .nullable (.list .string)),
      ("pet", .nullable (.object [("mood", .literal "SLEEPY")]))],
    [("mood", .nullable (.list (.nullable (.literal "SLEEPY"))))]⟩]

theorem signatures_wellFormed_oddOperation :
    oddOperation.NoEmptyEnum ∧ signatures {} [oddOperation] = .ok oddSignatures ∧
      ∀ signature ∈ oddSignatures, signature.result.WellFormed ∧
        ∀ var ∈ signature.vars, var.2.WellFormed := by
  have h : signatures {} [oddOperation] = .ok oddSignatures := by rfl
  have hpet : onlyPet.NoEmptyEnum := by
    refine Selection.everywhere_iff.mpr ⟨trivial, by simp [onlyPet], ?_⟩
    simp only [onlyPet, List.forall_mem_singleton]
    refine Selection.everywhere_iff.mpr ⟨trivial, ?_, by simp⟩
    simp [Selection.FieldEverywhere, Field.mapNested, Field.nested?]
  have hne : oddOperation.NoEmptyEnum := by
    refine ⟨Selection.everywhere_iff.mpr ⟨trivial, ?_, by simp [oddOperation]⟩, ?_⟩
    · simp [oddOperation, Selection.FieldEverywhere, Field.mapNested, Field.nested?, hpet]
    · simp [oddOperation, InputCore.NoEmptyEnum]
  refine ⟨hne, h, signatures_wellFormed {} [oddOperation] ?_ oddSignatures h⟩
  simpa using hne

-- An enum without values has an empty union for its shape.
example : ¬ (Shape.ofNames []).normalize.WellFormed := by decide

end QueryShape
