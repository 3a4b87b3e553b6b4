import Mathlib.Logic.Relation
import QueryShape.Proofs.Meaning

/-!
# The parts of a shape

The shapes directly inside a shape, by which induction goes. What is inside a normal form is the
normal form of something that is kept inside the shape.
-/

namespace QueryShape.Shape

def parts : Shape → List Shape
  | .list element => [element]
  | .nullable shape => [shape]
  | .union members | .intersection members => members
  | .object properties => properties.map Prod.snd
  | .boolean | .string | .number | .literal _ | .reference _ => []

theorem sizeOf_lt_of_mem_parts {shape part : Shape} (h : part ∈ shape.parts) :
    sizeOf part < sizeOf shape := by
  cases shape with
  | boolean | string | number | literal | reference => cases h
  | list element =>
      rw [List.mem_singleton.mp h]
      simp
  | nullable inner =>
      rw [List.mem_singleton.mp h]
      simp
  | union members =>
      have hm : part ∈ members := h
      have := List.sizeOf_lt_of_mem hm
      simp only [union.sizeOf_spec]
      omega
  | intersection members =>
      have hm : part ∈ members := h
      have := List.sizeOf_lt_of_mem hm
      simp only [intersection.sizeOf_spec]
      omega
  | object properties =>
      obtain ⟨⟨key, shape⟩, hm, rfl⟩ := List.mem_map.mp h
      have := List.sizeOf_lt_of_mem hm
      simp only [object.sizeOf_spec, Prod.mk.sizeOf_spec] at this ⊢
      omega

theorem induction {motive : Shape → Prop}
    (step : ∀ shape : Shape, (∀ part ∈ shape.parts, motive part) → motive shape)
    (shape : Shape) : motive shape :=
  step shape fun part _ => induction step part
termination_by sizeOf shape
decreasing_by exact sizeOf_lt_of_mem_parts ‹_›

theorem preorder_eq (shape : Shape) : shape.preorder = shape :: shape.parts.flatMap preorder := by
  have hall (members : List Shape) : preorderAll members = members.flatMap preorder := by
    induction members with
    | nil => rfl
    | cons member rest ih => rw [preorderAll, ih, List.flatMap_cons]
  have hproperties (properties : List (String × Shape)) :
      preorderProperties properties = (properties.map Prod.snd).flatMap preorder := by
    induction properties with
    | nil => rfl
    | cons property rest ih => rw [preorderProperties, ih, List.map_cons, List.flatMap_cons]
  cases shape <;> simp [preorder, parts, hall, hproperties]

theorem mem_preorder_iff {shape inner : Shape} :
    inner ∈ shape.preorder ↔ inner = shape ∨ ∃ part ∈ shape.parts, inner ∈ part.preorder := by
  rw [preorder_eq, List.mem_cons, List.mem_flatMap]

theorem forall_mem_preorder_iff {shape : Shape} {motive : Shape → Prop} :
    (∀ inner ∈ shape.preorder, motive inner) ↔
      motive shape ∧ ∀ part ∈ shape.parts, ∀ inner ∈ part.preorder, motive inner := by
  rw [preorder_eq, List.forall_mem_cons, List.forall_mem_flatMap]

/-! ### Normal forms -/

def only? : Shape → Option Shape
  | .union [only] | .intersection [only] => some only
  | _ => none

theorem parts_of_only? {shape only : Shape} (h : shape.only? = some only) :
    shape.parts = [only] := by
  unfold only? at h
  split at h <;> cases h <;> rfl

theorem normalize_of_only? {shape only : Shape} (h : shape.only? = some only) :
    shape.normalize = only.normalize := by
  unfold only? at h
  split at h <;> cases h <;> rfl

theorem normalize_union_of_only? {members : List Shape} (h : (union members).only? = none) :
    (union members).normalize = .union (members.map normalize) := by
  match members with
  | [] => rfl
  | [_] => cases h
  | _ :: _ :: _ => rw [← normalizeAll_eq_map]; rfl

theorem normalize_intersection_of_only? {members : List Shape}
    (h : (intersection members).only? = none) :
    (intersection members).normalize = .intersection (members.map normalize) := by
  match members with
  | [] => rfl
  | [_] => cases h
  | _ :: _ :: _ => rw [← normalizeAll_eq_map]; rfl

/-- A part that is in the normal form: of several properties with one key only the last. -/
def Keeps (shape part : Shape) : Prop :=
  match shape with
  | .object properties => ∃ key, properties.reverse.lookup key = some part
  | shape => part ∈ shape.parts

/-- A shape inside, at any depth, that is in the normal form. -/
abbrev KeepsInside : Shape → Shape → Prop := Relation.ReflTransGen Keeps

theorem Keeps.mem_parts {shape part : Shape} (h : shape.Keeps part) : part ∈ shape.parts := by
  cases shape with
  | boolean | string | number | literal | reference | list | nullable | union | intersection =>
      exact h
  | object properties =>
      obtain ⟨key, hl⟩ := h
      obtain ⟨before, after, heq, _⟩ := List.lookup_eq_some_iff.mp hl
      have hmem : (key, part) ∈ properties := by
        rw [← List.mem_reverse, heq]
        simp
      exact List.mem_map_of_mem hmem

theorem keeps_iff_of_only? {shape only part : Shape} (h : shape.only? = some only) :
    shape.Keeps part ↔ part = only := by
  unfold only? at h
  split at h <;> cases h <;> simp [Keeps, parts]

theorem mem_normalize_entries_iff {properties : List (String × Shape)} {key : String}
    {shape : Shape} : (key, shape) ∈ (OrderedMap.ofList (normalizeProperties properties)).entries ↔
      ∃ last, properties.reverse.lookup key = some last ∧ last.normalize = shape := by
  rw [← OrderedMap.find?_eq_some_iff, ← OrderedMap.lookup_reverse_entries,
    lookup_normalize_entries, Option.map_eq_some_iff]

/-- The parts of a normal form are the normal forms of the parts that are kept. -/
theorem mem_parts_normalize_iff {shape part : Shape} (ho : shape.only? = none) :
    part ∈ shape.normalize.parts ↔ ∃ source, shape.Keeps source ∧ source.normalize = part := by
  cases shape with
  | boolean | string | number | literal | reference => simp [normalize, parts, Keeps]
  | list | nullable => simp [normalize, parts, Keeps, eq_comm]
  | union members => simp [normalize_union_of_only? ho, parts, Keeps]
  | intersection members => simp [normalize_intersection_of_only? ho, parts, Keeps]
  | object properties =>
      simp only [normalize, parts, Keeps, List.mem_map, Prod.exists, exists_eq_right,
        mem_normalize_entries_iff]
      constructor
      · rintro ⟨key, last, hl, hn⟩
        exact ⟨last, ⟨key, hl⟩, hn⟩
      · rintro ⟨last, ⟨key, hl⟩, hn⟩
        exact ⟨key, last, hl, hn⟩

/-- What is inside a normal form are the normal forms of what is kept inside the shape, save that a
union or intersection of one member is passed over. -/
theorem mem_preorder_normalize_iff {shape inner : Shape} :
    inner ∈ shape.normalize.preorder ↔
      ∃ source, shape.KeepsInside source ∧ source.only? = none ∧ source.normalize = inner := by
  induction shape using induction with
  | step shape ih =>
      have hinside (source : Shape) : shape.KeepsInside source ↔
          source = shape ∨ ∃ part, shape.Keeps part ∧ part.KeepsInside source := by
        rw [KeepsInside, Relation.ReflTransGen.cases_head_iff, eq_comm]
      cases ho : shape.only? with
      | some only =>
          have hp : only ∈ shape.parts := by simp [parts_of_only? ho]
          rw [normalize_of_only? ho, ih only hp]
          refine exists_congr fun source => and_congr_left fun ⟨hnone, _⟩ => ?_
          have hne : source ≠ shape := by
            rintro rfl
            rw [ho] at hnone
            cases hnone
          simp [hinside, hne, keeps_iff_of_only? ho]
      | none =>
          rw [mem_preorder_iff]
          constructor
          · rintro (rfl | ⟨_, hp, hi⟩)
            · exact ⟨shape, .refl, ho, rfl⟩
            · obtain ⟨part, hk, rfl⟩ := (mem_parts_normalize_iff ho).mp hp
              obtain ⟨source, hs, hsource⟩ := (ih part hk.mem_parts).mp hi
              exact ⟨source, .head hk hs, hsource⟩
          · rintro ⟨source, hs, hsource⟩
            rcases (hinside source).mp hs with rfl | ⟨part, hk, hs⟩
            · exact .inl hsource.2.symm
            · refine .inr ⟨_, (mem_parts_normalize_iff ho).mpr ⟨part, hk, rfl⟩, ?_⟩
              exact (ih part hk.mem_parts).mpr ⟨source, hs, hsource⟩

theorem KeepsInside.mem_preorder {shape inner : Shape} (h : shape.KeepsInside inner) :
    inner ∈ shape.preorder := by
  induction h using Relation.ReflTransGen.head_induction_on with
  | refl => exact mem_preorder_iff.mpr (.inl rfl)
  | head hk _ ih => exact mem_preorder_iff.mpr (.inr ⟨_, hk.mem_parts, ih⟩)

theorem exists_of_mem_preorder_normalize {shape inner : Shape}
    (h : inner ∈ shape.normalize.preorder) :
    ∃ source ∈ shape.preorder, source.only? = none ∧ inner = source.normalize := by
  obtain ⟨source, hs, ho, hn⟩ := mem_preorder_normalize_iff.mp h
  exact ⟨source, hs.mem_preorder, ho, hn.symm⟩

end QueryShape.Shape
