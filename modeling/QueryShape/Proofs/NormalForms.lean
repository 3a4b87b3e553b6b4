import QueryShape.Proofs.FirstOccurrences
import QueryShape.Proofs.ShapeParts

/-!
# Normal forms

A shape is normal if no union or intersection in it has just one member and no object a key twice.
Just the normal shapes are left as they are.
-/

namespace QueryShape

namespace Shape

/-- What is asked of each shape inside a normal one. -/
def NormalHere : Shape → Prop
  | .union members | .intersection members => members.length ≠ 1
  | .object properties => (properties.map Prod.fst).Nodup
  | .boolean | .string | .number | .literal _ | .reference _ | .list _ | .nullable _ => True

/-- Nowhere inside has a union or intersection just one member, or an object a key twice. -/
def Normal (shape : Shape) : Prop := ∀ inner ∈ shape.preorder, inner.NormalHere

theorem normal_iff {shape : Shape} :
    shape.Normal ↔ shape.NormalHere ∧ ∀ part ∈ shape.parts, part.Normal :=
  forall_mem_preorder_iff

theorem NormalHere.only?_eq_none {shape : Shape} (h : shape.NormalHere) : shape.only? = none := by
  unfold only?
  split
  · exact absurd rfl h
  · exact absurd rfl h
  · rfl

theorem normalHere_normalize {shape : Shape} (ho : shape.only? = none) :
    shape.normalize.NormalHere := by
  cases shape with
  | boolean | string | number | literal | reference | list | nullable => trivial
  | object properties => exact OrderedMap.nodup _
  | union members =>
      rw [normalize_union_of_only? ho]
      intro hone
      rw [List.length_map] at hone
      obtain ⟨only, rfl⟩ := List.length_eq_one_iff.mp hone
      cases ho
  | intersection members =>
      rw [normalize_intersection_of_only? ho]
      intro hone
      rw [List.length_map] at hone
      obtain ⟨only, rfl⟩ := List.length_eq_one_iff.mp hone
      cases ho

theorem normal_normalize (shape : Shape) : shape.normalize.Normal := by
  intro inner hi
  obtain ⟨source, -, ho, rfl⟩ := exists_of_mem_preorder_normalize hi
  exact normalHere_normalize ho

theorem normalize_eq_self_of_empty {shape : Shape} (ho : shape.only? = none)
    (he : shape.normalize = .union [] ∨ shape.normalize = .intersection []) :
    shape.normalize = shape := by
  cases shape with
  | boolean | string | number | literal | reference | list | nullable | object =>
      simp [normalize] at he
  | union members =>
      rw [normalize_union_of_only? ho] at he ⊢
      have hnil : members = [] := by simpa using he
      rw [hnil, List.map_nil]
  | intersection members =>
      rw [normalize_intersection_of_only? ho] at he ⊢
      have hnil : members = [] := by simpa using he
      rw [hnil, List.map_nil]

theorem Normal.normalize_eq_self {shape : Shape} (h : shape.Normal) : shape.normalize = shape := by
  induction shape using induction with
  | step shape ih =>
      obtain ⟨hhere, hparts⟩ := normal_iff.mp h
      have hpart (part : Shape) (hp : part ∈ shape.parts) : part.normalize = part :=
        ih part hp (hparts part hp)
      cases shape with
      | boolean | string | number | literal | reference => rfl
      | list element => rw [normalize, hpart element (List.mem_singleton_self element)]
      | nullable inner => rw [normalize, hpart inner (List.mem_singleton_self inner)]
      | union members =>
          have hmembers : members.map normalize = members := map_eq_self hpart
          rw [normalize_union_of_only? hhere.only?_eq_none, hmembers]
      | intersection members =>
          have hmembers : members.map normalize = members := map_eq_self hpart
          rw [normalize_intersection_of_only? hhere.only?_eq_none, hmembers]
      | object properties =>
          have hsame : normalizeProperties properties = properties := by
            rw [normalizeProperties_eq_map]
            apply map_eq_self
            intro property hp
            have hinner := hpart property.2 (List.mem_map_of_mem hp)
            exact Prod.ext rfl hinner
          have hmade := OrderedMap.ofList_entries ⟨properties, hhere⟩
          rw [normalize, hsame, hmade]

theorem normalize_eq_self_iff {shape : Shape} : shape.normalize = shape ↔ shape.Normal := by
  constructor
  · intro h
    rw [← h]
    exact normal_normalize shape
  · exact Normal.normalize_eq_self

/-- No union or intersection in a normal form has just one member, an empty one is in it only if it
was in the shape before, and no object in it has a key twice. Just those shapes are left as they are
that are so already, so normalising again changes nothing. -/
theorem normalize_normal_forms (shape : Shape) :
    shape.normalize.Normal ∧
      (∀ inner ∈ shape.normalize.preorder, inner = .union [] ∨ inner = .intersection [] →
        inner ∈ shape.preorder) ∧
      (shape.normalize = shape ↔ shape.Normal) ∧
      shape.normalize.normalize = shape.normalize := by
  refine ⟨normal_normalize shape, ?_, normalize_eq_self_iff, ?_⟩
  · intro inner hi he
    obtain ⟨source, hs, ho, rfl⟩ := exists_of_mem_preorder_normalize hi
    rwa [normalize_eq_self_of_empty ho he]
  · exact (normal_normalize shape).normalize_eq_self

end Shape
end QueryShape
