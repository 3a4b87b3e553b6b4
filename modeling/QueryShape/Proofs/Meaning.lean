import Mathlib.Data.List.Nodup
import QueryShape.Json
import QueryShape.Shape.Normal
import QueryShape.Signature

/-!
# What shapes mean

A shape stands for the JSON values that have it. An object has every listed key, with a value of the
shape that is listed last; further keys are free.
-/

namespace QueryShape

namespace OrderedMap

variable {α β : Type}

theorem find?_insertAll (map : OrderedMap α) (entries : List (String × α)) (key : String) :
    (map.insertAll entries).find? key = (entries.reverse.lookup key).or (map.find? key) := by
  induction entries generalizing map with
  | nil => simp [insertAll]
  | cons entry rest ih =>
      have hstep : map.insertAll (entry :: rest) =
          (map.insert entry.1 entry.2).insertAll rest := rfl
      rw [hstep, ih, find?_insert, List.reverse_cons, List.lookup_append, Option.or_assoc,
        lookup_cons_eq]
      by_cases hk : key = entry.1 <;> simp [hk]

/-- A map made of entries has under each key the value that is written last. -/
theorem find?_ofList (entries : List (String × α)) (key : String) :
    (ofList entries).find? key = entries.reverse.lookup key := by
  rw [ofList, find?_insertAll]
  have hempty : find? (∅ : OrderedMap α) key = none := rfl
  rw [hempty, Option.or_none]

theorem lookup_reverse_entries (map : OrderedMap α) (key : String) :
    map.entries.reverse.lookup key = map.find? key := by
  let reversed : OrderedMap α := ⟨map.entries.reverse, by
    rw [List.map_reverse]
    exact List.nodup_reverse.mpr map.nodup⟩
  have hr : map.entries.reverse.lookup key = reversed.find? key := rfl
  rw [hr]
  ext value
  rw [find?_eq_some_iff, find?_eq_some_iff]
  exact List.mem_reverse

end OrderedMap

theorem OrderedMap.lookup_reverse_eq_none_iff {α : Type} {entries : List (String × α)}
    {key : String} : entries.reverse.lookup key = none ↔ key ∉ entries.map Prod.fst := by
  rw [List.lookup_eq_none_iff, List.mem_map]
  simp only [List.mem_reverse, bne_iff_ne, not_exists, not_and]
  exact forall₂_congr fun entry _ => ne_comm

theorem OrderedMap.lookup_reverse_eq_some_iff {α : Type} {entries : List (String × α)}
    (h : (entries.map Prod.fst).Nodup) {key : String} {value : α} :
    entries.reverse.lookup key = some value ↔ (key, value) ∈ entries := by
  rw [← @find?_eq_some_iff _ ⟨entries, h⟩, ← lookup_reverse_entries]

/-- The values of a core under wrappers: null where it is possible, lists element by element.
`never` says that the core itself is never null. -/
def Wrapper.Admits (wrapping : List Wrapper) (nullable never : Bool) (core : Json → Prop)
    (value : Json) : Prop :=
  match wrapping with
  | [] => ((nullable && !never) = true ∧ value = .null) ∨ core value
  | .list :: inner => (nullable = true ∧ value = .null) ∨
      ∃ elements, value = .array elements ∧
        ∀ element ∈ elements, Admits inner true never core element
  | .notNull :: inner => Admits inner false never core value

theorem Wrapper.Admits.mono {core wider : Json → Prop} (h : ∀ value, core value → wider value)
    {wrapping : List Wrapper} {nullable never : Bool} {value : Json}
    (ha : Wrapper.Admits wrapping nullable never core value) :
    Wrapper.Admits wrapping nullable never wider value := by
  induction wrapping generalizing nullable value with
  | nil => exact ha.imp_right (h value)
  | cons wrapper inner ih =>
      cases wrapper with
      | list =>
          refine ha.imp_right fun ⟨elements, hv, he⟩ => ⟨elements, hv, fun element hm => ?_⟩
          exact ih (he element hm)
      | notNull => exact ih ha

/-- The values of the scalar of this name. A custom scalar has any value. -/
def ScalarValue (name : String) (value : Json) : Prop :=
  match name with
  | "Int" | "Float" => ∃ mantissa decimals, value = .number mantissa decimals
  | "ID" | "String" => ∃ text, value = .string text
  | "Boolean" => ∃ truth, value = .bool truth
  | _ => True

def EnumValue (names : List String) (value : Json) : Prop :=
  ∃ name ∈ names, value = .string name

namespace Shape

mutual

/-- The JSON values of a shape. -/
def Admits : Shape → Json → Prop
  | .boolean, value => ∃ truth, value = .bool truth
  | .string, value => ∃ text, value = .string text
  | .number, value => ∃ mantissa decimals, value = .number mantissa decimals
  | .literal text, value => value = .string text
  | .reference _, _ => True
  | .list element, value => ∃ elements, value = .array elements ∧ ∀ e ∈ elements, element.Admits e
  | .nullable shape, value => value = .null ∨ shape.Admits value
  | .union members, value => AnyAdmits members value
  | .intersection members, value => AllAdmit members value
  | .object properties, value => ∃ members, value = .object members ∧
      PropertiesAdmit properties members

def AnyAdmits : List Shape → Json → Prop
  | [], _ => False
  | shape :: rest, value => shape.Admits value ∨ AnyAdmits rest value

def AllAdmit : List Shape → Json → Prop
  | [], _ => True
  | shape :: rest, value => shape.Admits value ∧ AllAdmit rest value

/-- Of several properties with one key the last counts. -/
def PropertiesAdmit : List (String × Shape) → List (String × Json) → Prop
  | [], _ => True
  | (key, shape) :: rest, members =>
      (key ∉ rest.map Prod.fst → ∃ value, members.lookup key = some value ∧ shape.Admits value) ∧
        PropertiesAdmit rest members

end

theorem anyAdmits_iff {members : List Shape} {value : Json} :
    AnyAdmits members value ↔ ∃ shape ∈ members, shape.Admits value := by
  induction members with
  | nil => simp [AnyAdmits]
  | cons shape rest ih => simp [AnyAdmits, ih]

theorem allAdmit_iff {members : List Shape} {value : Json} :
    AllAdmit members value ↔ ∀ shape ∈ members, shape.Admits value := by
  induction members with
  | nil => simp [AllAdmit]
  | cons shape rest ih => simp [AllAdmit, ih]

theorem propertiesAdmit_iff {properties : List (String × Shape)} {members : List (String × Json)} :
    PropertiesAdmit properties members ↔
      ∀ key shape, properties.reverse.lookup key = some shape →
        ∃ value, members.lookup key = some value ∧ shape.Admits value := by
  induction properties with
  | nil => simp [PropertiesAdmit]
  | cons property rest ih =>
      obtain ⟨name, first⟩ := property
      rw [PropertiesAdmit, ih, List.reverse_cons]
      simp only [List.lookup_append, Option.or_eq_some_iff]
      constructor
      · rintro ⟨hfirst, hrest⟩ key shape (hl | ⟨hnone, hl⟩)
        · exact hrest key shape hl
        · rw [OrderedMap.lookup_cons_eq] at hl
          split at hl
          · next hkey =>
            cases hl
            rw [hkey] at hnone ⊢
            exact hfirst (OrderedMap.lookup_reverse_eq_none_iff.mp hnone)
          · cases hl
      · intro h
        refine ⟨fun hn => h name first (.inr ⟨?_, ?_⟩), fun key shape hl => h key shape (.inl hl)⟩
        · exact OrderedMap.lookup_reverse_eq_none_iff.mpr hn
        · simp

theorem admits_ofParts {properties : List (String × Shape)} {branches : List Shape}
    {members : List (String × Json)} (hp : PropertiesAdmit properties members)
    (hb : branches = [] ∨ AnyAdmits branches (.object members)) :
    (ofParts properties branches).Admits (.object members) := by
  have hobject : (Shape.object properties).Admits (.object members) := ⟨members, rfl, hp⟩
  cases branches with
  | nil => cases properties <;> exact hobject
  | cons branch rest =>
      have hunion := hb.resolve_left (List.cons_ne_nil branch rest)
      cases properties with
      | nil => exact hunion
      | cons property others => exact ⟨hobject, hunion, trivial⟩

/-! ### Normal form -/

theorem normalizeProperties_eq_map (properties : List (String × Shape)) :
    normalizeProperties properties = properties.map fun (key, shape) => (key, shape.normalize) := by
  induction properties with
  | nil => rfl
  | cons property rest ih => rw [normalizeProperties, ih, List.map_cons]

theorem normalizeAll_eq_map (shapes : List Shape) : normalizeAll shapes = shapes.map normalize := by
  induction shapes with
  | nil => rfl
  | cons shape rest ih => rw [normalizeAll, ih, List.map_cons]

theorem lookup_map_snd {α β : Type} (f : α → β) (entries : List (String × α)) (key : String) :
    (entries.map fun (name, value) => (name, f value)).lookup key =
      (entries.lookup key).map f := by
  induction entries with
  | nil => rfl
  | cons entry rest ih =>
      obtain ⟨name, value⟩ := entry
      rw [List.map_cons, OrderedMap.lookup_cons_eq, OrderedMap.lookup_cons_eq, ih]
      by_cases hk : key = name <;> simp [hk]

theorem lookup_normalize_entries (properties : List (String × Shape)) (key : String) :
    (OrderedMap.ofList (normalizeProperties properties)).entries.reverse.lookup key =
      (properties.reverse.lookup key).map normalize := by
  rw [OrderedMap.lookup_reverse_entries, OrderedMap.find?_ofList, normalizeProperties_eq_map,
    ← List.map_reverse, lookup_map_snd]

end Shape
end QueryShape
