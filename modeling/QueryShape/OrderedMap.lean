/-!
# Insertion-ordered maps

Named entries in the order in which their names were first written. Writing a name again replaces
its value and keeps its place, so the position of an entry comes from the first write and its value
from the last.
-/

namespace QueryShape

/-- Entries under distinct names, in the order in which the names were first written. -/
structure OrderedMap (α : Type) where
  entries : List (String × α)
  nodup : (entries.map Prod.fst).Nodup
deriving DecidableEq

namespace OrderedMap

/-- Writes `value` under `key`: in place when the key is there, at the end when it is not. -/
def put {α : Type} (key : String) (value : α) : List (String × α) → List (String × α)
  | [] => [(key, value)]
  | entry :: rest =>
      if entry.1 = key then (key, value) :: rest else entry :: put key value rest

theorem keys_put {α : Type} (key : String) (value : α) (entries : List (String × α)) :
    (put key value entries).map Prod.fst =
      if key ∈ entries.map Prod.fst then entries.map Prod.fst
      else entries.map Prod.fst ++ [key] := by
  induction entries with
  | nil => simp [put]
  | cons entry rest ih =>
      by_cases h : entry.1 = key
      · simp [put, h]
      · have h' : key ≠ entry.1 := fun e => h e.symm
        simp only [put, h, if_false, List.map_cons, ih, List.mem_cons, h', false_or]
        split <;> simp

theorem nodup_put {α : Type} (key : String) (value : α) {entries : List (String × α)}
    (h : (entries.map Prod.fst).Nodup) : ((put key value entries).map Prod.fst).Nodup := by
  rw [keys_put]
  split
  · exact h
  · next hk => exact List.nodup_append.mpr ⟨h, by simp, by
      intro a ha b hb
      rw [List.mem_singleton.mp hb]
      rintro rfl
      exact hk ha⟩

def swapOut {α : Type} (key : String) : List (String × α) → List (String × α)
  | [] => []
  | entry :: rest =>
      if entry.1 = key then
        match rest.getLast? with
        | some last => last :: rest.dropLast
        | none => []
      else entry :: swapOut key rest

theorem lookup_cons_eq {α : Type} (key : String) (entry : String × α)
    (rest : List (String × α)) :
    (entry :: rest).lookup key = if key = entry.1 then some entry.2 else rest.lookup key := by
  obtain ⟨name, value⟩ := entry
  rw [List.lookup_cons]
  cases hb : key == name with
  | true => rw [if_pos (beq_iff_eq.mp hb)]
  | false => rw [if_neg (beq_eq_false_iff_ne.mp hb)]

theorem perm_cons_swapOut {α : Type} {key : String} {value : α} {entries : List (String × α)}
    (h : entries.lookup key = some value) : entries.Perm ((key, value) :: swapOut key entries) := by
  induction entries with
  | nil => simp at h
  | cons entry rest ih =>
      rw [lookup_cons_eq] at h
      by_cases hk : entry.1 = key
      · rw [if_pos hk.symm] at h
        have he : entry = (key, value) := Prod.ext hk (Option.some.inj h)
        rw [swapOut, if_pos hk, he]
        cases hl : rest.getLast? with
        | none => rw [List.getLast?_eq_none_iff.mp hl]
        | some last =>
            obtain ⟨init, rfl⟩ := List.getLast?_eq_some_iff.mp hl
            simp [List.perm_append_singleton]
      · rw [if_neg fun e => hk e.symm] at h
        rw [swapOut, if_neg hk]
        exact ((ih h).cons entry).trans (List.Perm.swap _ _ _)

variable {α β : Type}

def empty : OrderedMap α := ⟨[], .nil⟩

instance : EmptyCollection (OrderedMap α) := ⟨empty⟩

instance : Inhabited (OrderedMap α) := ⟨empty⟩

def insert (map : OrderedMap α) (key : String) (value : α) : OrderedMap α :=
  ⟨put key value map.entries, nodup_put key value map.nodup⟩

def insertAll (map : OrderedMap α) (entries : List (String × α)) : OrderedMap α :=
  entries.foldl (fun map entry => map.insert entry.1 entry.2) map

def ofList (entries : List (String × α)) : OrderedMap α :=
  insertAll ∅ entries

def keys (map : OrderedMap α) : List String :=
  map.entries.map Prod.fst

def find? (map : OrderedMap α) (key : String) : Option α :=
  map.entries.lookup key

def contains (map : OrderedMap α) (key : String) : Bool :=
  map.keys.contains key

def modify (map : OrderedMap α) (key : String) (f : α → α) : OrderedMap α :=
  match map.find? key with
  | some value => map.insert key (f value)
  | none => map

/-- Takes an entry out; the last entry takes its place. -/
def swapRemove? (map : OrderedMap α) (key : String) : Option (α × OrderedMap α) :=
  match h : map.find? key with
  | some value =>
      some (value, ⟨swapOut key map.entries, by
        have hp := (perm_cons_swapOut h).map Prod.fst
        exact (List.nodup_cons.mp (hp.nodup_iff.mp map.nodup)).2⟩)
  | none => none

theorem keys_insert (map : OrderedMap α) (key : String) (value : α) :
    (map.insert key value).keys =
      if key ∈ map.keys then map.keys else map.keys ++ [key] :=
  keys_put key value map.entries

theorem find?_eq_some_iff {map : OrderedMap α} {key : String} {value : α} :
    map.find? key = some value ↔ (key, value) ∈ map.entries := by
  obtain ⟨entries, nodup⟩ := map
  simp only [find?]
  induction entries with
  | nil => simp
  | cons entry rest ih =>
      obtain ⟨hn, hr⟩ := List.nodup_cons.mp nodup
      rw [lookup_cons_eq, List.mem_cons, ← ih hr]
      by_cases hk : key = entry.1
      · have hnot : ¬ rest.lookup key = some value := by
          rw [ih hr]
          exact fun h => hn (hk ▸ List.mem_map_of_mem h)
        simp [Prod.ext_iff, hk, eq_comm]
        exact fun h => absurd (hk ▸ h) hnot
      · simp [Prod.ext_iff, hk]

theorem find?_insert (map : OrderedMap α) (key name : String) (value : α) :
    (map.insert key value).find? name = if name = key then some value else map.find? name := by
  obtain ⟨entries, nodup⟩ := map
  simp only [find?, insert]
  clear nodup
  induction entries with
  | nil => simp [put, lookup_cons_eq]
  | cons entry rest ih =>
      rw [put]
      by_cases hk : entry.1 = key
      · rw [if_pos hk, lookup_cons_eq, lookup_cons_eq, hk]
        by_cases hn : name = key <;> simp [hn]
      · rw [if_neg hk, lookup_cons_eq, lookup_cons_eq, ih]
        by_cases hn : name = entry.1
        · have hne : ¬ name = key := fun e => hk (hn ▸ e)
          rw [if_pos hn, if_neg hne, if_pos hn]
        · rw [if_neg hn, if_neg hn]

theorem swapRemove?_spec {map rest : OrderedMap α} {key : String} {value : α}
    (h : map.swapRemove? key = some (value, rest)) :
    map.find? key = some value ∧
      ∀ name, rest.find? name = if name = key then none else map.find? name := by
  unfold swapRemove? at h
  split at h
  · next found hf =>
    obtain ⟨rfl, rfl⟩ := Prod.mk.inj (Option.some.inj h)
    have hp := perm_cons_swapOut hf
    have hkey : key ∉ (swapOut key map.entries).map Prod.fst :=
      (List.nodup_cons.mp ((hp.map Prod.fst).nodup_iff.mp map.nodup)).1
    refine ⟨hf, fun name => Option.ext fun other => ?_⟩
    rw [find?_eq_some_iff]
    by_cases hn : name = key
    · rw [if_pos hn]
      simp only [reduceCtorEq, iff_false]
      exact fun hm => hkey (List.mem_map.mpr ⟨_, hm, hn⟩)
    · rw [if_neg hn, find?_eq_some_iff, hp.mem_iff, List.mem_cons]
      simp [hn]
  · simp at h

theorem swapRemove?_eq_none_iff {map : OrderedMap α} {key : String} :
    map.swapRemove? key = none ↔ map.find? key = none := by
  unfold swapRemove?
  split <;> simp [*]

theorem mem_keys_of_find? {map : OrderedMap α} {key : String} {value : α}
    (h : map.find? key = some value) : key ∈ map.keys := by
  exact List.mem_map_of_mem (find?_eq_some_iff.mp h)

theorem mem_keys_iff {map : OrderedMap α} {key : String} :
    key ∈ map.keys ↔ ∃ value, map.find? key = some value := by
  simp only [keys, find?_eq_some_iff]
  constructor
  · intro h
    obtain ⟨entry, hm, rfl⟩ := List.mem_map.mp h
    exact ⟨entry.2, hm⟩
  · rintro ⟨value, hm⟩
    exact List.mem_map_of_mem hm

end OrderedMap
end QueryShape
