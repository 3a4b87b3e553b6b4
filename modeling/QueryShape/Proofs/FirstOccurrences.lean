import Mathlib.Data.List.Induction
import Mathlib.Data.List.Nodup
import QueryShape.Proofs.Meaning

/-!
# First occurrences

The distinct members of a list in the order in which they first occur: the keys of an ordered map
made from a list of entries.
-/

namespace QueryShape

theorem eraseDups_concat {α : Type} [BEq α] [LawfulBEq α] (xs : List α) (x : α)
    [Decidable (x ∈ xs)] :
    (xs ++ [x]).eraseDups = if x ∈ xs then xs.eraseDups else xs.eraseDups ++ [x] := by
  rw [List.eraseDups_append, List.removeAll, List.filter_singleton]
  split <;> simp_all [List.eraseDups_cons]

theorem nodup_eraseDups {α : Type} [DecidableEq α] (xs : List α) : xs.eraseDups.Nodup := by
  induction xs using List.reverseRecOn with
  | nil => simp
  | append_singleton xs x ih =>
      rw [eraseDups_concat]
      split
      · exact ih
      · next hx =>
        refine List.nodup_append.mpr ⟨ih, List.nodup_singleton x, ?_⟩
        intro y hy z hz
        rw [List.mem_singleton.mp hz]
        rintro rfl
        exact hx (List.mem_eraseDups.mp hy)

theorem eraseDups_eq_self {α : Type} [DecidableEq α] {xs : List α} (h : xs.Nodup) :
    xs.eraseDups = xs := by
  induction xs using List.reverseRecOn with
  | nil => rfl
  | append_singleton xs x ih =>
      rw [← List.concat_eq_append, List.nodup_concat] at h
      rw [eraseDups_concat, if_neg h.1, ih h.2]

theorem map_eq_self {α : Type} {f : α → α} {xs : List α} (h : ∀ x ∈ xs, f x = x) :
    xs.map f = xs :=
  (List.map_congr_left h).trans (List.map_id' xs)

namespace OrderedMap

variable {α : Type}

theorem insertAll_append (map : OrderedMap α) (entries others : List (String × α)) :
    map.insertAll (entries ++ others) = (map.insertAll entries).insertAll others :=
  List.foldl_append

/-- A map made of entries has their keys in the order of the first entry with each. -/
theorem keys_ofList (entries : List (String × α)) :
    (ofList entries).keys = (entries.map Prod.fst).eraseDups := by
  induction entries using List.reverseRecOn with
  | nil => rfl
  | append_singleton entries entry ih =>
      have hstep : ofList (entries ++ [entry]) = (ofList entries).insert entry.1 entry.2 :=
        insertAll_append ∅ entries [entry]
      rw [hstep, keys_insert, List.map_append, List.map_singleton, eraseDups_concat, ih]
      simp only [List.mem_eraseDups]

/-- A map is known by its keys in order and what it has under them. -/
theorem eq_of_find? {map map' : OrderedMap α} (hkeys : map.keys = map'.keys)
    (hfind : ∀ key, map.find? key = map'.find? key) : map = map' := by
  have hentry (map : OrderedMap α) :
      map.entries.map some = map.keys.map fun key => (map.find? key).map (key, ·) := by
    unfold keys
    rw [List.map_map]
    apply List.map_congr_left
    intro entry he
    rw [Function.comp, find?_eq_some_iff.mpr he]
    rfl
  have hsome := hentry map
  rw [hkeys] at hsome
  simp only [hfind] at hsome
  rw [← hentry map'] at hsome
  obtain ⟨entries, nodup⟩ := map
  obtain ⟨entries', nodup'⟩ := map'
  have hentries : entries = entries' :=
    List.map_injective_iff.mpr (fun _ _ => Option.some.inj) hsome
  subst hentries
  rfl

theorem ofList_entries (map : OrderedMap α) : ofList map.entries = map := by
  apply eq_of_find?
  · rw [keys_ofList]
    exact eraseDups_eq_self map.nodup
  · intro key
    rw [find?_ofList, lookup_reverse_entries]

end OrderedMap
end QueryShape
