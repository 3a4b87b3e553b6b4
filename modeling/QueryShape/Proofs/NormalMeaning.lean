import QueryShape.Proofs.CustomScalars
import QueryShape.Proofs.FirstOccurrences

/-!
# What normalising keeps

A shape and its normal form have the same values. An object keeps each of its keys once, where it
first occurs and with the shape that it has last.
-/

namespace QueryShape.Shape

/-- How the properties of an object are merged: each key is listed once, in the order of first
occurrence, with the normal form of the shape that it is listed with last. -/
structure Merges (properties merged : List (String × Shape)) : Prop where
  keys : merged.map Prod.fst = (properties.map Prod.fst).eraseDups
  nodup : (merged.map Prod.fst).Nodup
  last : ∀ key shape, (key, shape) ∈ merged ↔
    ∃ last, properties.reverse.lookup key = some last ∧ last.normalize = shape

theorem merges_normalize (properties : List (String × Shape)) :
    Merges properties (OrderedMap.ofList (normalizeProperties properties)).entries where
  keys := by
    have hkeys : (normalizeProperties properties).map Prod.fst = properties.map Prod.fst := by
      rw [normalizeProperties_eq_map, List.map_map]
      rfl
    rw [← hkeys]
    exact OrderedMap.keys_ofList _
  nodup := OrderedMap.nodup _
  last _ _ := mem_normalize_entries_iff

theorem exists_properties_of_normalize_eq {shape : Shape} {merged : List (String × Shape)}
    (ho : shape.only? = none) (h : shape.normalize = .object merged) :
    ∃ properties, shape = .object properties := by
  cases shape with
  | boolean | string | number | literal | reference | list | nullable => cases h
  | union => rw [normalize_union_of_only? ho] at h; cases h
  | intersection => rw [normalize_intersection_of_only? ho] at h; cases h
  | object properties => exact ⟨properties, rfl⟩

/-- Normalising keeps the values of a shape. Every object becomes an object that lists each key
once, in the order of first occurrence and with the normal form of the shape that it is listed with
last, and the objects in the normal form are just what the objects that are kept in the shape
become. -/
theorem normalize_keeps_values (shape : Shape) :
    (∀ value, shape.Admits value ↔ shape.normalize.Admits value) ∧
      (∀ properties, ∃ merged, (object properties).normalize = .object merged ∧
        Merges properties merged) ∧
      ∀ merged, .object merged ∈ shape.normalize.preorder ↔
        ∃ properties, shape.KeepsInside (.object properties) ∧
          (object properties).normalize = .object merged := by
  refine ⟨fun value => (admits_normalize shape value).symm, fun properties => ?_, fun merged => ?_⟩
  · exact ⟨_, by rw [normalize], merges_normalize properties⟩
  · rw [mem_preorder_normalize_iff]
    constructor
    · rintro ⟨source, hs, ho, hn⟩
      obtain ⟨properties, rfl⟩ := exists_properties_of_normalize_eq ho hn
      exact ⟨properties, hs, hn⟩
    · rintro ⟨properties, hs, hn⟩
      exact ⟨.object properties, hs, rfl, hn⟩

-- The key `a` keeps its first place and its last shape.
example : (Shape.object [("a", .string), ("b", .boolean), ("a", .union [.number])]).normalize =
    .object [("a", .number), ("b", .boolean)] := by decide

end QueryShape.Shape
