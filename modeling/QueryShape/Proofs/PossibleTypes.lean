import QueryShape.Proofs.Meaning
import QueryShape.Schema

/-!
# The possible types of a schema

A schema holds every type under its own name, so an object type is listed once among the
implementations of an interface. Only a union can have a possible type twice.
-/

namespace QueryShape

theorem filterMap_sublist_map {α β : Type} {f : α → Option β} {g : α → β} {xs : List α}
    (h : ∀ x ∈ xs, ∀ y, f x = some y → y = g x) : (xs.filterMap f).Sublist (xs.map g) := by
  induction xs with
  | nil => exact .slnil
  | cons x xs ih =>
      have hrest := ih fun x' hx' => h x' (List.mem_cons_of_mem x hx')
      rw [List.filterMap_cons, List.map_cons]
      split
      · exact hrest.cons _
      · next y hy =>
        rw [h x List.mem_cons_self y hy]
        exact hrest.cons_cons _

namespace Schema

open Source (SystemDocument)

variable {types : OrderedMap (TypeDefinition FieldMap)}

/-- Every type is held under its own name. -/
def Named (types : OrderedMap (TypeDefinition FieldMap)) : Prop :=
  ∀ name type, types.find? name = some type → type.name = name

theorem Named.insert (h : Named types) (type : TypeDefinition FieldMap) :
    Named (types.insert type.name type) := by
  intro name found hf
  rw [OrderedMap.find?_insert] at hf
  by_cases hname : name = type.name
  · rw [if_pos hname] at hf
    cases hf
    exact hname.symm
  · rw [if_neg hname] at hf
    exact h name found hf

theorem Named.modify (h : Named types) (name : String)
    (f : TypeDefinition FieldMap → TypeDefinition FieldMap)
    (hf : ∀ type, (f type).name = type.name) : Named (types.modify name f) := by
  unfold OrderedMap.modify
  split
  · next type ht =>
    have hname : (f type).name = name := (hf type).trans (h name type ht)
    have hinsert := h.insert (f type)
    rwa [hname] at hinsert
  · exact h

theorem named_declared (document : SystemDocument) : Named (declared document) := by
  refine List.foldlRecOn _ _ ?_ fun types h entry he => ?_
  · intro name type hf
    cases hf
  · obtain ⟨definition, _, hd⟩ := List.mem_filterMap.mp he
    cases definition with
    | type type =>
        cases hd
        exact h.insert ⟨type.name, _⟩
    | _ => cases hd

theorem named_extended (h : Named types) (document : SystemDocument) :
    Named (extended document types) := by
  refine List.foldlRecOn document _ h fun types h definition _ => ?_
  cases definition with
  | extension extension => exact h.modify _ _ fun _ => rfl
  | _ => exact h

theorem named_withBuiltins (h : Named types) : Named (withBuiltins types) := by
  refine List.foldlRecOn builtinScalars _ h fun types h name _ => ?_
  unfold addScalar
  split
  · exact h
  · exact h.insert ⟨name, .scalar⟩

theorem named_ofDocument (document : SystemDocument) : Named (ofDocument document).definitions := by
  have hdefinitions : (ofDocument document).definitions =
      withBuiltins (extended document (declared document)) := by rw [ofDocument]
  rw [hdefinitions]
  exact named_withBuiltins (named_extended (named_declared document) document)

theorem implementations_sublist {schema : Schema} (h : Named schema.definitions) (name : String) :
    (schema.implementations name).Sublist schema.definitions.keys := by
  apply filterMap_sublist_map
  intro entry he found hf
  have hname := h entry.1 entry.2 (OrderedMap.find?_eq_some_iff.mpr he)
  obtain ⟨key, type⟩ := entry
  simp only at hf hname
  split at hf
  · split at hf
    · cases hf
      exact hname
    · cases hf
  · cases hf

/-- Possible types are distinct unless a union lists a member twice. -/
theorem nodup_possibleTypes (document : SystemDocument) (name : String)
    (h : ∀ members, ((ofDocument document).definition? name).map TypeDefinition.body =
      some (.union members) → members.Nodup) :
    ((ofDocument document).possibleTypes name).Nodup := by
  have hnamed := named_ofDocument document
  unfold possibleTypes
  split
  · next members hb => exact h members hb
  · exact (implementations_sublist hnamed name).nodup (ofDocument document).definitions.nodup
  · exact List.nodup_singleton name

end Schema
end QueryShape
