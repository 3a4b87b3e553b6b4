import QueryShape.Proofs.ShapeParts
import QueryShape.Schema

/-!
# The values of custom scalars

Which values a shape has depends on which values the custom scalars in it have. If each has any
value, a shape has just the values that it admits.
-/

namespace QueryShape

def ScalarValueGiven (custom : String → Json → Prop) (name : String) (value : Json) : Prop :=
  if name ∈ Schema.builtinScalars then ScalarValue name value else custom name value

namespace Shape

/-- The JSON values of a shape, where `custom` has those of each type that is known by name only. -/
def AdmitsGiven (custom : String → Json → Prop) : Shape → Json → Prop
  | .boolean, value => ∃ truth, value = .bool truth
  | .string, value => ∃ text, value = .string text
  | .number, value => ∃ mantissa decimals, value = .number mantissa decimals
  | .literal text, value => value = .string text
  | .reference name, value => custom name value
  | .list element, value =>
      ∃ elements, value = .array elements ∧ ∀ e ∈ elements, element.AdmitsGiven custom e
  | .nullable shape, value => value = .null ∨ shape.AdmitsGiven custom value
  | .union members, value => ∃ member, ∃ _ : member ∈ members, member.AdmitsGiven custom value
  | .intersection members, value => ∀ member ∈ members, member.AdmitsGiven custom value
  | .object properties, value => ∃ members, value = .object members ∧
      ∀ key last, properties.reverse.lookup key = some last →
        ∃ value, members.lookup key = some value ∧ last.AdmitsGiven custom value
termination_by shape => sizeOf shape
decreasing_by
  all_goals apply sizeOf_lt_of_mem_parts
  · exact List.mem_singleton_self _
  · exact List.mem_singleton_self _
  · assumption
  · assumption
  · next hl =>
    rw [List.unattach_reverse, List.unattach_attach] at hl
    exact Keeps.mem_parts ⟨_, hl⟩

variable {custom : String → Json → Prop}

/-! ### Shapes of types -/

theorem admitsGiven_wrapped {wrapping : List Wrapper} {nullable never : Bool} {core : Shape}
    {value : Json} : (wrapped wrapping nullable never core).AdmitsGiven custom value ↔
      Wrapper.Admits wrapping nullable never (core.AdmitsGiven custom) value := by
  have horNull (nullable : Bool) (shape : Shape) (value : Json) :
      (orNull nullable shape).AdmitsGiven custom value ↔
        (nullable = true ∧ value = .null) ∨ shape.AdmitsGiven custom value := by
    cases nullable <;> simp [orNull, AdmitsGiven]
  induction wrapping generalizing nullable value with
  | nil => rw [wrapped, horNull, Wrapper.Admits]
  | cons wrapper inner ih =>
      cases wrapper with
      | list =>
          rw [wrapped, horNull, Wrapper.Admits, AdmitsGiven]
          simp only [ih]
      | notNull =>
          rw [wrapped]
          exact ih

theorem admitsGiven_ofScalar {name : String} {value : Json} :
    (ofScalar name).AdmitsGiven custom value ↔ ScalarValueGiven custom name value := by
  unfold ofScalar ScalarValueGiven ScalarValue
  split <;> simp_all [AdmitsGiven, Schema.builtinScalars]

theorem admitsGiven_ofNames {names : List String} {value : Json} :
    (ofNames names).AdmitsGiven custom value ↔ EnumValue names value := by
  simp [ofNames, AdmitsGiven, EnumValue]

/-! ### Normal form -/

theorem admitsGiven_of_only? {shape only : Shape} (h : shape.only? = some only) {value : Json} :
    shape.AdmitsGiven custom value ↔ only.AdmitsGiven custom value := by
  unfold only? at h
  split at h <;> cases h <;> simp [AdmitsGiven]

theorem admitsGiven_normalize {shape : Shape} {value : Json} :
    shape.normalize.AdmitsGiven custom value ↔ shape.AdmitsGiven custom value := by
  induction shape using induction generalizing value with
  | step shape ih =>
      cases ho : shape.only? with
      | some only =>
          have hp : only ∈ shape.parts := by simp [parts_of_only? ho]
          rw [normalize_of_only? ho, ih only hp, admitsGiven_of_only? ho]
      | none =>
          cases shape with
          | boolean | string | number | literal | reference => rfl
          | list element =>
              rw [normalize, AdmitsGiven, AdmitsGiven]
              simp only [ih element (List.mem_singleton_self _)]
          | nullable inner =>
              rw [normalize, AdmitsGiven, AdmitsGiven, ih inner (List.mem_singleton_self _)]
          | union members =>
              rw [normalize_union_of_only? ho, AdmitsGiven, AdmitsGiven]
              simp only [List.mem_map, exists_prop, exists_exists_and_eq_and]
              exact exists_congr fun member => and_congr_right fun hm => ih member hm
          | intersection members =>
              rw [normalize_intersection_of_only? ho, AdmitsGiven, AdmitsGiven,
                List.forall_mem_map]
              exact forall₂_congr fun member hm => ih member hm
          | object properties =>
              rw [normalize, AdmitsGiven, AdmitsGiven]
              refine exists_congr fun members => and_congr_right fun _ => ?_
              refine forall_congr' fun key => ?_
              rw [lookup_normalize_entries]
              cases hl : properties.reverse.lookup key with
              | none => simp
              | some last =>
                  have hkeeps : (object properties).Keeps last := ⟨key, hl⟩
                  simp [ih last hkeeps.mem_parts]

/-! ### Custom scalars with any value -/

/-- If a custom scalar has any value, these are the values that a shape admits. -/
theorem admitsGiven_anything {shape : Shape} {value : Json} :
    shape.AdmitsGiven (fun _ _ => True) value ↔ shape.Admits value := by
  induction shape using induction generalizing value with
  | step shape ih =>
      cases shape with
      | boolean | string | number | literal | reference => rw [AdmitsGiven, Admits]
      | list element =>
          rw [AdmitsGiven, Admits]
          simp only [ih element (List.mem_singleton_self _)]
      | nullable inner => rw [AdmitsGiven, Admits, ih inner (List.mem_singleton_self _)]
      | union members =>
          rw [AdmitsGiven, Admits, anyAdmits_iff]
          simp only [exists_prop]
          exact exists_congr fun member => and_congr_right fun hm => ih member hm
      | intersection members =>
          rw [AdmitsGiven, Admits, allAdmit_iff]
          exact forall₂_congr fun member hm => ih member hm
      | object properties =>
          rw [AdmitsGiven, Admits]
          simp only [propertiesAdmit_iff]
          refine exists_congr fun members => and_congr_right fun _ => ?_
          refine forall₃_congr fun key last hl => ?_
          have hkeeps : (object properties).Keeps last := ⟨key, hl⟩
          exact exists_congr fun value => and_congr_right fun _ => ih last hkeeps.mem_parts

theorem admits_wrapped {wrapping : List Wrapper} {nullable never : Bool} {core : Shape}
    {value : Json} : (wrapped wrapping nullable never core).Admits value ↔
      Wrapper.Admits wrapping nullable never core.Admits value := by
  have hcore : core.AdmitsGiven (fun _ _ => True) = core.Admits :=
    funext fun _ => propext admitsGiven_anything
  rw [← admitsGiven_anything, admitsGiven_wrapped, hcore]

theorem admits_ofScalar {name : String} {value : Json} :
    (ofScalar name).Admits value ↔ ScalarValue name value := by
  unfold ofScalar ScalarValue
  split <;> simp [Admits]

theorem admits_ofNames {names : List String} {value : Json} :
    (ofNames names).Admits value ↔ EnumValue names value := by
  rw [← admitsGiven_anything, admitsGiven_ofNames]

theorem admits_ofTypename {exact : Bool} {possible : List String} {type : String}
    (h : type ∈ possible) : (ofTypename exact possible).Admits (.string type) := by
  unfold ofTypename
  split
  · cases h
  · rw [List.mem_singleton.mp h]
    cases exact <;> simp [Admits]
  · exact admits_ofNames.mpr ⟨type, h, rfl⟩

theorem admits_normalize (shape : Shape) (value : Json) :
    shape.normalize.Admits value ↔ shape.Admits value := by
  rw [← admitsGiven_anything, admitsGiven_normalize, admitsGiven_anything]

end Shape
end QueryShape
