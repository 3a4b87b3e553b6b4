import QueryShape.Proofs.Outcome
import QueryShape.Settings.Decode
import QueryShape.Settings.KeyPath

/-!
# Reading tables key by key

The tables that files lead to have distinct keys. What is read under one key depends neither on the
place of its entry nor on the other entries.
-/

namespace QueryShape.Settings

open Outcome

/-! ### Entries of distinct keys -/

def Distinct (entries : List (String × Value)) : Prop := (entries.map Prod.fst).Nodup

namespace Distinct

variable {entries lower : List (String × Value)} {key : String} {value : Value}

theorem nil : Distinct [] := List.nodup_nil

theorem lookup_eq_some_iff (h : Distinct entries) :
    entries.lookup key = some value ↔ (key, value) ∈ entries :=
  @OrderedMap.find?_eq_some_iff Value ⟨entries, h⟩ key value

theorem lookup_tail (h : Distinct ((key, value) :: entries)) : entries.lookup key = none := by
  obtain ⟨hk, hr⟩ := List.nodup_cons.mp h
  rw [Option.eq_none_iff_forall_ne_some]
  intro other ho
  have hm : (key, other) ∈ entries := (lookup_eq_some_iff hr).mp ho
  exact hk (List.mem_map.mpr ⟨_, hm, rfl⟩)

theorem tail (h : Distinct ((key, value) :: entries)) : Distinct entries :=
  (List.nodup_cons.mp h).2

theorem put (h : Distinct entries) : Distinct (OrderedMap.put key value entries) :=
  OrderedMap.nodup_put key value h

theorem lookup_put (h : Distinct entries) (name : String) :
    (OrderedMap.put key value entries).lookup name =
      if name = key then some value else entries.lookup name :=
  OrderedMap.find?_insert ⟨entries, h⟩ key name value

theorem overlayEntries (h : Distinct lower) (entries : List (String × Value)) :
    Distinct (Value.overlayEntries lower entries) := by
  induction entries generalizing lower with
  | nil => simpa only [Value.overlayEntries] using h
  | cons entry rest ih =>
      rw [Value.overlayEntries]
      exact ih h.put

end Distinct

namespace Value

/-- What is under a key once entries are laid over others. -/
theorem lookup_overlayEntries {lower entries : List (String × Value)} (hl : Distinct lower)
    (h : Distinct entries) (name : String) :
    (overlayEntries lower entries).lookup name =
      match entries.lookup name with
      | none => lower.lookup name
      | some value => some (((lower.lookup name).getD .null).overlay value) := by
  induction entries generalizing lower with
  | nil => simp [overlayEntries]
  | cons entry rest ih =>
      obtain ⟨key, value⟩ := entry
      rw [overlayEntries, ih hl.put h.tail, hl.lookup_put, OrderedMap.lookup_cons_eq]
      by_cases hk : name = key
      · subst hk
        simp [h.lookup_tail]
      · simp [hk]

theorem entries_overlay (lower upper : Value) :
    (lower.overlay upper).entries =
      match upper with
      | .table entries => overlayEntries lower.entries entries
      | _ => [] := by
  cases upper <;> simp [overlay, entries]

/-- The keys of a table are distinct, and so are those of the tables in it. -/
structure Tidy (value : Value) : Prop where
  distinct : Distinct value.entries
  inner {name : String} {value' : Value} (h : value.entries.lookup name = some value') :
    Distinct value'.entries

variable {lower upper value : Value}

theorem distinct_overlay (h : Distinct lower.entries) (upper : Value) :
    Distinct (lower.overlay upper).entries := by
  rw [entries_overlay]
  split
  · exact h.overlayEntries _
  · exact .nil

theorem distinct_getD_lookup (h : lower.Tidy) (name : String) :
    Distinct ((lower.entries.lookup name).getD .null).entries := by
  cases hv : lower.entries.lookup name with
  | none => exact .nil
  | some value => exact h.inner hv

theorem distinct_overlayAt (h : Distinct lower.entries) (upper : Value) (path : KeyPath) :
    Distinct (overlayAt upper lower path).entries := by
  cases path with
  | nil => exact distinct_overlay h upper
  | cons step steps =>
      cases step with
      | entry name => exact h.put
      | item position => exact .nil

theorem Tidy.put (h : lower.Tidy) {key : String} (hv : Distinct value.entries) :
    Tidy (.table (OrderedMap.put key value lower.entries)) where
  distinct := h.distinct.put
  inner {name value'} hm := by
    rw [entries, h.distinct.lookup_put] at hm
    split at hm
    · cases hm
      exact hv
    · exact h.inner hm

theorem Tidy.empty : Tidy (.table []) := ⟨.nil, nofun⟩

theorem Tidy.of_entries_eq_nil (h : value.entries = []) : value.Tidy := by
  constructor
  · rw [h]
    exact .nil
  · intro name value' hm
    rw [h] at hm
    cases hm

theorem Tidy.table_overlayEntries (h : lower.Tidy) (entries : List (String × Value)) :
    Tidy (.table (overlayEntries lower.entries entries)) := by
  induction entries generalizing lower with
  | nil =>
      rw [overlayEntries]
      exact ⟨h.distinct, h.inner⟩
  | cons entry rest ih =>
      rw [overlayEntries]
      exact ih (h.put (distinct_overlay (distinct_getD_lookup h entry.1) entry.2))

theorem Tidy.overlay (h : lower.Tidy) (upper : Value) : (lower.overlay upper).Tidy := by
  cases upper with
  | table entries =>
      rw [Value.overlay]
      exact h.table_overlayEntries entries
  | _ => exact .of_entries_eq_nil (by simp [Value.overlay, entries])

theorem Tidy.overlayAt (h : lower.Tidy) (upper : Value) (path : KeyPath) :
    (overlayAt upper lower path).Tidy := by
  cases path with
  | nil => exact h.overlay upper
  | cons step steps =>
      cases step with
      | entry name => exact h.put (distinct_overlayAt (distinct_getD_lookup h name) upper steps)
      | item position => exact .of_entries_eq_nil rfl

theorem Tidy.overlayFile (h : lower.Tidy) (file : Value) : (lower.overlayFile file).Tidy :=
  List.foldlRecOn file.entries _ h fun _ hl entry _ => hl.overlayAt entry.2 (KeyPath.ofKey entry.1)

end Value

/-! ### Writing one entry -/

def Writes (before : List (String × Value)) (key : String) (value : Value)
    (after : List (String × Value)) : Prop :=
  ∀ name, after.lookup name = if name = key then some value else before.lookup name

/-- What is laid over others with one entry written comes out with one entry written. -/
theorem Writes.overlayEntries {lower before after : List (String × Value)} {key : String}
    {value : Value} (h : Writes before key value after) (hl : Distinct lower)
    (hb : Distinct before) (ha : Distinct after) :
    Writes (Value.overlayEntries lower before) key
      (((lower.lookup key).getD .null).overlay value) (Value.overlayEntries lower after) := by
  intro name
  rw [Value.lookup_overlayEntries hl hb, Value.lookup_overlayEntries hl ha, h name]
  by_cases hk : name = key
  · simp [hk]
  · simp [hk]

/-! ### Reading -/

/-- A reader that reads each of `keys` into a part of its own, whatever else has been read. `only`
takes the part of a key out: it leaves the others as they are in `start`. -/
structure KeyByKey {α : Type} (start : α) (keys : List String) (only : String → α → α)
    (read : α → String → Value → Reading α) : Prop where
  of_read {a b : α} {key : String} {value : Value} (h : read a key value = .ok b) :
    key ∈ keys ∧ read start key value = .ok (only key b) ∧
      ∀ other ∈ keys, other ≠ key → only other b = only other a
  exists_read (a : α) {b : α} {key : String} {value : Value} (h : read start key value = .ok b) :
    ∃ c, read a key value = .ok c
  ext {a b : α} (h : ∀ key ∈ keys, only key a = only key b) : a = b

namespace KeyByKey

variable {α : Type} {start : α} {keys : List String} {only : String → α → α}
  {read : α → String → Value → Reading α}

/-- A table of distinct keys is read key by key: each is known, and its part is what its value says,
or what it was before. -/
theorem readEntries_eq_ok_iff (hr : KeyByKey start keys only read)
    {entries : List (String × Value)} (hd : Distinct entries) {a b : α} :
    readEntries a read entries = .ok b ↔
      (∀ key value, entries.lookup key = some value → key ∈ keys) ∧
        ∀ key ∈ keys,
          (entries.lookup key).elim (.ok (only key a)) (read start key) = .ok (only key b) := by
  induction entries generalizing a with
  | nil =>
      constructor
      · intro h
        cases h
        exact ⟨nofun, fun key _ => rfl⟩
      · rintro ⟨-, h⟩
        have hab : a = b := hr.ext fun key hk => Except.ok.inj (h key hk)
        rw [hab]
        rfl
  | cons entry rest ih =>
      obtain ⟨key, value⟩ := entry
      -- The key is not among the rest, so what is read after it leaves its part as it is.
      have hnone := hd.lookup_tail
      have hcons (name : String) : ((key, value) :: rest).lookup name =
          if name = key then some value else rest.lookup name :=
        OrderedMap.lookup_cons_eq name (key, value) rest
      constructor
      · intro h
        obtain ⟨next, hn, h⟩ : ∃ next, read a key value = .ok next ∧
            readEntries next read rest = .ok b := by
          simpa only [readEntries, List.foldlM_cons, bind_eq_ok] using h
        obtain ⟨hk, hval, hothers⟩ := hr.of_read hn
        obtain ⟨hknown, hrest⟩ := (ih hd.tail).mp h
        constructor
        · intro name other hm
          rw [hcons] at hm
          split at hm
          · next he => exact he ▸ hk
          · exact hknown name other hm
        · intro name hname
          rw [hcons]
          split
          · next he =>
            subst he
            have hsame := hrest name hname
            rw [hnone, Option.elim_none, Except.ok.injEq] at hsame
            rw [Option.elim_some, hval, hsame]
          · next hne => rw [← hrest name hname, hothers name hname hne]
      · rintro ⟨hknown, hall⟩
        have hk : key ∈ keys := hknown key value (by rw [hcons, if_pos rfl])
        have hval : read start key value = .ok (only key b) := by
          have hkey := hall key hk
          rwa [hcons, if_pos rfl, Option.elim_some] at hkey
        obtain ⟨next, hn⟩ := hr.exists_read a hval
        obtain ⟨-, hnext, hothers⟩ := hr.of_read hn
        have hrest : readEntries next read rest = .ok b := by
          refine (ih hd.tail).mpr ⟨fun name other hm => ?_, fun name hname => ?_⟩
          · refine hknown name other ?_
            rw [hcons, if_neg, hm]
            rintro rfl
            rw [hnone] at hm
            cases hm
          · by_cases he : name = key
            · subst he
              rw [hnone, Option.elim_none, ← hnext, hval]
            · have hkey := hall name hname
              rw [hcons, if_neg he] at hkey
              rw [hothers name hname he, hkey]
        simp only [readEntries, List.foldlM_cons, bind_eq_ok]
        exact ⟨next, hn, hrest⟩

/-- With one entry written, what was read before is read, and then that entry. -/
theorem readEntries_of_writes (hr : KeyByKey start keys only read)
    {before after : List (String × Value)} {key : String} {value : Value}
    (h : Writes before key value after) (hb : Distinct before) (ha : Distinct after) {a b c : α}
    (hread : readEntries a read before = .ok b) (hv : read b key value = .ok c) :
    readEntries a read after = .ok c := by
  obtain ⟨hknown, hall⟩ := (hr.readEntries_eq_ok_iff hb).mp hread
  obtain ⟨hk, hval, hothers⟩ := hr.of_read hv
  refine (hr.readEntries_eq_ok_iff ha).mpr ⟨fun name other hm => ?_, fun name hname => ?_⟩
  · rw [h name] at hm
    split at hm
    · next he => exact he ▸ hk
    · exact hknown name other hm
  · rw [h name]
    split
    · next he =>
      subst he
      exact hval
    · next hne => rw [hothers name hname hne, hall name hname]

end KeyByKey

/-! ### The readers -/

theorem part_eq_ok_iff {α β : Type} {key : String} {part? : Option β} {put : β → α} {a : α} :
    (do return put (← orInvalid key part?)) = .ok a ↔ ∃ part, part? = some part ∧ put part = a := by
  cases part? <;> simp [orInvalid, throw, throwThe, MonadExceptOf.throw]

def logKeys : List String := ["level", "format", "filter"]

def onlyLog (start : LogSettings) (key : String) (log : LogSettings) : LogSettings :=
  match key with
  | "level" => { start with level := log.level }
  | "format" => { start with format := log.format }
  | "filter" => { start with filter := log.filter }
  | _ => start

theorem keyByKey_log (start : LogSettings) :
    KeyByKey start logKeys (onlyLog start) readLogSetting where
  of_read h := by
    unfold readLogSetting at h ⊢
    split at h
    · obtain ⟨level, hl, rfl⟩ := part_eq_ok_iff.mp h
      exact ⟨by simp [logKeys], part_eq_ok_iff.mpr ⟨level, hl, rfl⟩, by simp [logKeys, onlyLog]⟩
    · obtain ⟨format, hf, rfl⟩ := part_eq_ok_iff.mp h
      exact ⟨by simp [logKeys], part_eq_ok_iff.mpr ⟨format, hf, rfl⟩, by simp [logKeys, onlyLog]⟩
    · split at h
      · cases h
        exact ⟨by simp [logKeys], rfl, by simp [logKeys, onlyLog]⟩
      · obtain ⟨filter, hf, rfl⟩ := part_eq_ok_iff.mp h
        exact ⟨by simp [logKeys], part_eq_ok_iff.mpr ⟨filter, hf, rfl⟩, by simp [logKeys, onlyLog]⟩
    · cases h
  exists_read a b key value h := by
    unfold readLogSetting at h ⊢
    split at h
    · obtain ⟨level, hl, -⟩ := part_eq_ok_iff.mp h
      exact ⟨_, part_eq_ok_iff.mpr ⟨level, hl, rfl⟩⟩
    · obtain ⟨format, hf, -⟩ := part_eq_ok_iff.mp h
      exact ⟨_, part_eq_ok_iff.mpr ⟨format, hf, rfl⟩⟩
    · split at h
      · exact ⟨_, rfl⟩
      · obtain ⟨filter, hf, -⟩ := part_eq_ok_iff.mp h
        exact ⟨_, part_eq_ok_iff.mpr ⟨filter, hf, rfl⟩⟩
    · cases h
  ext {a b} h := by
    obtain ⟨level, format, filter⟩ := a
    obtain ⟨level', format', filter'⟩ := b
    simpa [logKeys, onlyLog] using h

def transformKeys : List String := ["max_depth", "exact_typename"]

def onlyTransform (key : String) (transform : Options) : Options :=
  match key with
  | "max_depth" => { maxDepth := transform.maxDepth }
  | "exact_typename" => { exactTypename := transform.exactTypename }
  | _ => {}

theorem keyByKey_transform : KeyByKey {} transformKeys onlyTransform readTransformSetting where
  of_read h := by
    unfold readTransformSetting at h ⊢
    split at h
    · obtain ⟨depth, hd, rfl⟩ := part_eq_ok_iff.mp h
      exact ⟨by simp [transformKeys], part_eq_ok_iff.mpr ⟨depth, hd, rfl⟩,
        by simp [transformKeys, onlyTransform]⟩
    · obtain ⟨exact, he, rfl⟩ := part_eq_ok_iff.mp h
      exact ⟨by simp [transformKeys], part_eq_ok_iff.mpr ⟨exact, he, rfl⟩,
        by simp [transformKeys, onlyTransform]⟩
    · cases h
  exists_read a b key value h := by
    unfold readTransformSetting at h ⊢
    split at h
    · obtain ⟨depth, hd, -⟩ := part_eq_ok_iff.mp h
      exact ⟨_, part_eq_ok_iff.mpr ⟨depth, hd, rfl⟩⟩
    · obtain ⟨exact, he, -⟩ := part_eq_ok_iff.mp h
      exact ⟨_, part_eq_ok_iff.mpr ⟨exact, he, rfl⟩⟩
    · cases h
  ext {a b} h := by
    obtain ⟨maxDepth, exactTypename⟩ := a
    obtain ⟨maxDepth', exactTypename'⟩ := b
    simpa [transformKeys, onlyTransform] using h

def sectionNames : List String := ["log", "transform"]

def onlySection (start : Settings) (name : String) (settings : Settings) : Settings :=
  match name with
  | "log" => { start with log := settings.log }
  | "transform" => { start with transform := settings.transform }
  | _ => start

variable {build : Build}

theorem readSection_log_eq_ok_iff {a b : Settings} {value : Value} :
    readSection build a "log" value = .ok b ↔
      ∃ log, readKeyed (.initial build) "log" logKeys readLogSetting value = .ok log ∧
        { a with log } = b := by
  simp only [readSection, bind_eq_ok, pure_eq_ok, logKeys]

theorem readSection_transform_eq_ok_iff {a b : Settings} {value : Value} :
    readSection build a "transform" value = .ok b ↔
      ∃ transform, readKeyed {} "transform" transformKeys readTransformSetting value =
        .ok transform ∧ { a with transform } = b := by
  simp only [readSection, bind_eq_ok, pure_eq_ok, transformKeys]

theorem mem_sectionNames_of_readSection {a b : Settings} {name : String} {value : Value}
    (h : readSection build a name value = .ok b) : name = "log" ∨ name = "transform" := by
  unfold readSection at h
  split at h
  · exact .inl rfl
  · exact .inr rfl
  · cases h

theorem keyByKey_section : KeyByKey (.initial build) sectionNames (onlySection (.initial build))
    (readSection build) where
  of_read h := by
    rcases mem_sectionNames_of_readSection h with rfl | rfl
    · obtain ⟨log, hl, rfl⟩ := readSection_log_eq_ok_iff.mp h
      exact ⟨by simp [sectionNames], readSection_log_eq_ok_iff.mpr ⟨log, hl, rfl⟩,
        by simp [sectionNames, onlySection]⟩
    · obtain ⟨transform, ht, rfl⟩ := readSection_transform_eq_ok_iff.mp h
      exact ⟨by simp [sectionNames], readSection_transform_eq_ok_iff.mpr ⟨transform, ht, rfl⟩,
        by simp [sectionNames, onlySection]⟩
  exists_read a b name value h := by
    rcases mem_sectionNames_of_readSection h with rfl | rfl
    · obtain ⟨log, hl, -⟩ := readSection_log_eq_ok_iff.mp h
      exact ⟨_, readSection_log_eq_ok_iff.mpr ⟨log, hl, rfl⟩⟩
    · obtain ⟨transform, ht, -⟩ := readSection_transform_eq_ok_iff.mp h
      exact ⟨_, readSection_transform_eq_ok_iff.mpr ⟨transform, ht, rfl⟩⟩
  ext {a b} h := by
    obtain ⟨log, transform⟩ := a
    obtain ⟨log', transform'⟩ := b
    simpa [sectionNames, onlySection] using h

variable {entries : List (String × Value)} {settings : Settings}

theorem log_of_readEntries (hd : Distinct entries)
    (h : readEntries (.initial build) (readSection build) entries = .ok settings) :
    (entries.lookup "log").elim (.ok (.initial build))
      (readKeyed (.initial build) "log" logKeys readLogSetting) = .ok settings.log := by
  have hlog := ((keyByKey_section.readEntries_eq_ok_iff hd).mp h).2 "log" (by decide)
  cases hv : entries.lookup "log" with
  | none =>
      rw [hv, Option.elim_none] at hlog
      exact congrArg (·.map Settings.log) hlog
  | some value =>
      rw [hv, Option.elim_some, readSection_log_eq_ok_iff] at hlog
      obtain ⟨log, hl, hsame⟩ := hlog
      have hlog : log = settings.log := congrArg Settings.log hsame
      exact hlog ▸ hl

theorem transform_of_readEntries (hd : Distinct entries)
    (h : readEntries (.initial build) (readSection build) entries = .ok settings) :
    (entries.lookup "transform").elim (.ok {})
      (readKeyed {} "transform" transformKeys readTransformSetting) = .ok settings.transform := by
  have htransform := ((keyByKey_section.readEntries_eq_ok_iff hd).mp h).2 "transform" (by decide)
  cases hv : entries.lookup "transform" with
  | none =>
      rw [hv, Option.elim_none] at htransform
      exact congrArg (·.map Settings.transform) htransform
  | some value =>
      rw [hv, Option.elim_some, readSection_transform_eq_ok_iff] at htransform
      obtain ⟨transform, ht, hsame⟩ := htransform
      have hsame : transform = settings.transform := congrArg Settings.transform hsame
      exact hsame ▸ ht

end QueryShape.Settings
