import QueryShape.Proofs.PossibleTypes
import QueryShape.Proofs.TableReading
import QueryShape.Settings.Environment

/-!
# What the environment sets

Five variables set one setting each, if each that is set can be read. One variable more writes one
entry of the layer that is laid over the files.
-/

namespace QueryShape.Settings

open Outcome

/-! ### Variables and what they set -/

inductive Variable where
  | logLevel
  | logFormat
  | logFilter
  | maxDepth
  | exactTypename
deriving DecidableEq, Repr

/-- What a variable sets. -/
inductive Setting where
  | level (value : LogLevel)
  | format (value : LogFormat)
  | filter (value : String)
  | maxDepth (value : Nat)
  | exactTypename (value : Bool)
deriving DecidableEq, Repr

namespace Variable

def all : List Variable := [.logLevel, .logFormat, .logFilter, .maxDepth, .exactTypename]

def name : Variable → String
  | .logLevel => "LOG_LEVEL"
  | .logFormat => "LOG_FORMAT"
  | .logFilter => "LOG_FILTER"
  | .maxDepth => "TYPEGEN_MAX_DEPTH"
  | .exactTypename => "TYPEGEN_EXACT_TYPENAME"

def sectionName : Variable → String
  | .logLevel | .logFormat | .logFilter => "log"
  | .maxDepth | .exactTypename => "transform"

def key : Variable → String
  | .logLevel => "level"
  | .logFormat => "format"
  | .logFilter => "filter"
  | .maxDepth => "max_depth"
  | .exactTypename => "exact_typename"

def read? : Variable → String → Option Setting
  | .logLevel, text => (LogLevel.read? text).map .level
  | .logFormat, text => (LogFormat.read? text).map .format
  | .logFilter, text => some (.filter text)
  | .maxDepth, text => (readBelow? UInt64.size text.toList).map .maxDepth
  | .exactTypename, text => (truthWord? text).map .exactTypename

theorem mem_all (source : Variable) : source ∈ all := by cases source <;> decide

theorem name_injective {source other : Variable} (h : source.name = other.name) :
    source = other := by
  cases source <;> cases other <;> first | rfl | exact absurd h (by decide)

theorem key_injective {source other : Variable} (h : source.key = other.key) :
    source = other := by
  cases source <;> cases other <;> first | rfl | exact absurd h (by decide)

end Variable

namespace Setting

def source : Setting → Variable
  | .level _ => .logLevel
  | .format _ => .logFormat
  | .filter _ => .logFilter
  | .maxDepth _ => .maxDepth
  | .exactTypename _ => .exactTypename

def value : Setting → Value
  | .level value => .text value.name
  | .format value => .text value.name
  | .filter value => .text value
  | .maxDepth value => .integer value
  | .exactTypename value => .bool value

def apply (settings : Settings) : Setting → Settings
  | .level value => { settings with log := { settings.log with level := value } }
  | .format value => { settings with log := { settings.log with format := value } }
  | .filter value => { settings with log := { settings.log with filter := some value } }
  | .maxDepth value => { settings with transform := { settings.transform with maxDepth := value } }
  | .exactTypename value =>
      { settings with transform := { settings.transform with exactTypename := value } }

theorem source_of_read? {source : Variable} {text : String} {setting : Setting}
    (h : source.read? text = some setting) : setting.source = source := by
  cases source with
  | logFilter =>
      cases h
      rfl
  | _ =>
      obtain ⟨_, -, rfl⟩ := Option.map_eq_some_iff.mp h
      rfl

theorem overlay_value (below : Value) (setting : Setting) :
    below.overlay setting.value = setting.value := by
  cases setting <;> simp [value, Value.overlay]

theorem readLogSetting_value {setting : Setting} (h : setting.source.sectionName = "log")
    (settings : Settings) :
    readLogSetting settings.log setting.source.key setting.value =
        .ok (setting.apply settings).log ∧
      { settings with log := (setting.apply settings).log } = setting.apply settings := by
  cases setting with
  | level value => cases value <;> exact ⟨rfl, rfl⟩
  | format value => cases value <;> exact ⟨rfl, rfl⟩
  | filter value => exact ⟨rfl, rfl⟩
  | maxDepth value => simp [source, Variable.sectionName] at h
  | exactTypename value => simp [source, Variable.sectionName] at h

theorem readTransformSetting_value {setting : Setting}
    (h : setting.source.sectionName = "transform") (settings : Settings) :
    readTransformSetting settings.transform setting.source.key setting.value =
        .ok (setting.apply settings).transform ∧
      { settings with transform := (setting.apply settings).transform } =
        setting.apply settings := by
  cases setting with
  | maxDepth value => exact ⟨rfl, rfl⟩
  | exactTypename value => exact ⟨rfl, rfl⟩
  | _ => simp [source, Variable.sectionName] at h

end Setting

/-! ### Reading the environment -/

namespace Environment

/-- The variable is set, but not readable. -/
def isUnreadable (environment : Environment) (source : Variable) : Bool :=
  (environment.lookup source.name).any fun text => (source.read? text).isNone

def setting? (environment : Environment) (source : Variable) : Option Setting :=
  environment.lookup source.name >>= source.read?

end Environment

def Overrides.setting? (overrides : Overrides) : Variable → Option Setting
  | .logLevel => overrides.level.map .level
  | .logFormat => overrides.format.map .format
  | .logFilter => overrides.filter.map .filter
  | .maxDepth => overrides.maxDepth.map .maxDepth
  | .exactTypename => overrides.exactTypename.map .exactTypename

/-- The variable is read by `read`, and `make` is what its value then sets. -/
structure Variable.ReadBy {α : Type} (source : Variable) (read : String → Option α)
    (make : α → Setting) : Prop where
  read?_eq (text : String) : source.read? text = (read text).map make
  injective {a b : α} (h : make a = make b) : a = b

namespace Variable.ReadBy

variable {α : Type} {source : Variable} {read : String → Option α} {make : α → Setting}
  {environment : Environment}

theorem eq_ok_iff (hr : source.ReadBy read make) {value? : Option α} :
    environment.read? source.name read = .ok value? ↔
      environment.isUnreadable source = false ∧ value?.map make = environment.setting? source := by
  cases ht : environment.lookup source.name with
  | none =>
      simp only [Environment.read?, Environment.isUnreadable, Environment.setting?, ht, pure_eq_ok,
        Option.any_none, Option.bind_eq_bind, Option.bind_none, Option.map_eq_none_iff, true_and]
      exact eq_comm
  | some text =>
      cases hv : read text with
      | none =>
          simp [Environment.read?, Environment.isUnreadable, ht, hr.read?_eq, hv, throw, throwThe,
            MonadExceptOf.throw]
      | some value =>
          have hvalue : some value = value? ↔ value?.map make = some (make value) := by
            rw [Option.map_eq_some_iff]
            constructor
            · rintro rfl
              exact ⟨value, rfl, rfl⟩
            · rintro ⟨other, rfl, he⟩
              rw [hr.injective he]
          simp [Environment.read?, Environment.isUnreadable, Environment.setting?, ht, hr.read?_eq,
            hv, hvalue]

theorem exists_eq_ok (hr : source.ReadBy read make)
    (h : environment.isUnreadable source = false) :
    ∃ value?, environment.read? source.name read = .ok value? := by
  cases ht : environment.lookup source.name with
  | none => simp [Environment.read?, ht]
  | some text =>
      cases hv : read text with
      | none => simp [Environment.isUnreadable, ht, hr.read?_eq, hv] at h
      | some value => simp [Environment.read?, ht, hv]

theorem eq_error (hr : source.ReadBy read make) (h : environment.isUnreadable source = true) :
    environment.read? source.name read = .error (.unreadableVariable source.name) := by
  cases ht : environment.lookup source.name with
  | none => simp [Environment.isUnreadable, ht] at h
  | some text =>
      cases hv : read text with
      | none => simp [Environment.read?, ht, hv, throw, throwThe, MonadExceptOf.throw]
      | some value => simp [Environment.isUnreadable, ht, hr.read?_eq, hv] at h

theorem bind_eq_error (hr : source.ReadBy read make) {β : Type} {error : SettingsError}
    {rest : Option α → Except SettingsError β}
    (hbad : environment.isUnreadable source = true → .unreadableVariable source.name = error)
    (hrest : environment.isUnreadable source = false → ∀ value?, rest value? = .error error) :
    (environment.read? source.name read >>= rest) = .error error := by
  cases hu : environment.isUnreadable source with
  | true =>
      rw [hr.eq_error hu, hbad hu]
      rfl
  | false =>
      obtain ⟨value?, hv⟩ := hr.exists_eq_ok hu
      rw [hv]
      exact hrest hu value?

theorem logLevel : Variable.logLevel.ReadBy LogLevel.read? .level := ⟨fun _ => rfl, by simp⟩

theorem logFormat : Variable.logFormat.ReadBy LogFormat.read? .format := ⟨fun _ => rfl, by simp⟩

theorem logFilter : Variable.logFilter.ReadBy some .filter := ⟨fun _ => rfl, by simp⟩

theorem maxDepth : Variable.maxDepth.ReadBy (readBelow? UInt64.size ·.toList) .maxDepth :=
  ⟨fun _ => rfl, by simp⟩

theorem exactTypename : Variable.exactTypename.ReadBy truthWord? .exactTypename :=
  ⟨fun _ => rfl, by simp⟩

end Variable.ReadBy

namespace Environment

variable {environment : Environment}

open Variable (ReadBy)

theorem overrides_eq_ok_iff {overrides : Overrides} :
    environment.overrides = .ok overrides ↔ ∀ source,
      environment.isUnreadable source = false ∧
        overrides.setting? source = environment.setting? source := by
  unfold Environment.overrides
  simp only [bind_eq_ok, pure_eq_ok]
  constructor
  · rintro ⟨level, hl, format, hf, filter, hi, depth, hd, exact, he, rfl⟩ source
    cases source with
    | logLevel => exact ReadBy.logLevel.eq_ok_iff.mp hl
    | logFormat => exact ReadBy.logFormat.eq_ok_iff.mp hf
    | logFilter => exact ReadBy.logFilter.eq_ok_iff.mp hi
    | maxDepth => exact ReadBy.maxDepth.eq_ok_iff.mp hd
    | exactTypename => exact ReadBy.exactTypename.eq_ok_iff.mp he
  · intro h
    exact ⟨_, ReadBy.logLevel.eq_ok_iff.mpr (h .logLevel),
      _, ReadBy.logFormat.eq_ok_iff.mpr (h .logFormat),
      _, ReadBy.logFilter.eq_ok_iff.mpr (h .logFilter),
      _, ReadBy.maxDepth.eq_ok_iff.mpr (h .maxDepth),
      _, ReadBy.exactTypename.eq_ok_iff.mpr (h .exactTypename), rfl⟩

/-- The first variable, in the order of reading, that cannot be read is reported. -/
theorem overrides_of_first {source : Variable}
    (h : Variable.all.find? environment.isUnreadable = some source) :
    environment.overrides = .error (.unreadableVariable source.name) := by
  unfold Environment.overrides
  refine ReadBy.logLevel.bind_eq_error (fun hbad => ?_) fun hlevel _ => ?_
  · rw [Variable.all, List.find?_cons_of_pos hbad] at h
    cases h
    rfl
  refine ReadBy.logFormat.bind_eq_error (fun hbad => ?_) fun hformat _ => ?_
  · simp only [Variable.all, List.find?_cons, hlevel, hbad] at h
    cases h
    rfl
  refine ReadBy.logFilter.bind_eq_error (fun hbad => ?_) fun hfilter _ => ?_
  · simp only [Variable.all, List.find?_cons, hlevel, hformat, hbad] at h
    cases h
    rfl
  refine ReadBy.maxDepth.bind_eq_error (fun hbad => ?_) fun hdepth _ => ?_
  · simp only [Variable.all, List.find?_cons, hlevel, hformat, hfilter, hbad] at h
    cases h
    rfl
  refine ReadBy.exactTypename.bind_eq_error (fun hbad => ?_) fun hexact _ => ?_
  · simp only [Variable.all, List.find?_cons, hlevel, hformat, hfilter, hdepth, hbad] at h
    cases h
    rfl
  simp [Variable.all, hlevel, hformat, hfilter, hdepth, hexact] at h

end Environment

def Overrides.set (overrides : Overrides) : Setting → Overrides
  | .level value => { overrides with level := some value }
  | .format value => { overrides with format := some value }
  | .filter value => { overrides with filter := some value }
  | .maxDepth value => { overrides with maxDepth := some value }
  | .exactTypename value => { overrides with exactTypename := some value }

theorem Overrides.setting?_set (overrides : Overrides) (setting : Setting) (source : Variable) :
    (overrides.set setting).setting? source =
      if source = setting.source then some setting else overrides.setting? source := by
  cases setting <;> cases source <;> rfl

theorem Environment.overrides_cons {environment : Environment} {overrides : Overrides}
    {setting : Setting} {text : String} (ho : environment.overrides = .ok overrides)
    (hread : setting.source.read? text = some setting) :
    Environment.overrides ((setting.source.name, text) :: environment) =
      .ok (overrides.set setting) := by
  rw [Environment.overrides_eq_ok_iff] at ho ⊢
  intro source
  obtain ⟨hu, hs⟩ := ho source
  rw [Overrides.setting?_set]
  unfold Environment.isUnreadable Environment.setting? at *
  rw [OrderedMap.lookup_cons_eq]
  by_cases he : source = setting.source
  · subst he
    simp [hread]
  · rw [if_neg fun hn => he (Variable.name_injective hn), if_neg he]
    exact ⟨hu, hs⟩

/-! ### The layer -/

namespace Overrides

variable {overrides : Overrides} {setting : Setting}

def sectionEntries (overrides : Overrides) (name : String) : List (String × Value) :=
  (Variable.all.filter (·.sectionName = name)).filterMap fun source =>
    (overrides.setting? source).map fun setting => (source.key, setting.value)

def sectionLayer? (overrides : Overrides) (name : String) : Option Value :=
  match overrides.sectionEntries name with
  | [] => none
  | entries => some (.table entries)

theorem entries_toValue (overrides : Overrides) : overrides.toValue.entries =
    ((overrides.sectionLayer? "log").map ("log", ·)).toList ++
      ((overrides.sectionLayer? "transform").map ("transform", ·)).toList := by
  -- Which sections there are depends on which of the five are set, and not on their values.
  obtain ⟨level, format, filter, maxDepth, exactTypename⟩ := overrides
  cases level <;> cases format <;> cases filter <;> cases maxDepth <;> cases exactTypename <;> rfl

theorem toValue_eq_table (overrides : Overrides) :
    overrides.toValue = .table overrides.toValue.entries := rfl

theorem distinct_toValue (overrides : Overrides) : Distinct overrides.toValue.entries := by
  rw [entries_toValue]
  cases overrides.sectionLayer? "log" <;> cases overrides.sectionLayer? "transform" <;>
    simp [Distinct]

theorem lookup_toValue (overrides : Overrides) (name : String) :
    overrides.toValue.entries.lookup name = overrides.sectionLayer? name := by
  rw [entries_toValue]
  by_cases hl : name = "log"
  · subst hl
    cases overrides.sectionLayer? "log" <;> cases overrides.sectionLayer? "transform" <;>
      simp [OrderedMap.lookup_cons_eq]
  · by_cases ht : name = "transform"
    · subst ht
      cases overrides.sectionLayer? "log" <;> cases overrides.sectionLayer? "transform" <;>
        simp [OrderedMap.lookup_cons_eq]
    · have hnone : overrides.sectionLayer? name = none := by
        have hne (source : Variable) : source.sectionName ≠ name := by
          cases source <;> simp [Variable.sectionName, Ne.symm hl, Ne.symm ht]
        simp [sectionLayer?, sectionEntries, hne]
      rw [hnone]
      cases overrides.sectionLayer? "log" <;> cases overrides.sectionLayer? "transform" <;>
        simp [OrderedMap.lookup_cons_eq, hl, ht]

theorem distinct_sectionEntries (overrides : Overrides) (name : String) :
    Distinct (overrides.sectionEntries name) := by
  have hkeys : ((overrides.sectionEntries name).map Prod.fst).Sublist
      (Variable.all.map Variable.key) := by
    rw [sectionEntries, List.map_filterMap]
    refine (filterMap_sublist_map fun source _ key hkey => ?_).trans
      (List.filter_sublist.map Variable.key)
    rw [Option.map_map] at hkey
    obtain ⟨_, -, rfl⟩ := Option.map_eq_some_iff.mp hkey
    rfl
  exact hkeys.nodup (by decide)

/-- What the layer has under a key is what the variable of that key sets. -/
theorem lookup_sectionEntries_eq_some_iff {name key : String} {value : Value} :
    (overrides.sectionEntries name).lookup key = some value ↔ ∃ source setting,
      source.sectionName = name ∧ source.key = key ∧ overrides.setting? source = some setting ∧
        setting.value = value := by
  rw [Distinct.lookup_eq_some_iff (overrides.distinct_sectionEntries name)]
  simp only [sectionEntries, List.mem_filterMap, List.mem_filter, Variable.mem_all, true_and,
    decide_eq_true_eq, Option.map_eq_some_iff, Prod.mk.injEq]
  constructor
  · rintro ⟨source, hs, setting, hset, hk, hv⟩
    exact ⟨source, setting, hs, hk, hset, hv⟩
  · rintro ⟨source, setting, hs, hk, hset, hv⟩
    exact ⟨source, hs, setting, hset, hk, hv⟩

theorem writes_sectionEntries (overrides : Overrides) (setting : Setting) :
    Writes (overrides.sectionEntries setting.source.sectionName) setting.source.key setting.value
      ((overrides.set setting).sectionEntries setting.source.sectionName) := by
  intro key
  ext value
  rw [lookup_sectionEntries_eq_some_iff]
  split
  · next hk =>
    subst hk
    rw [Option.some.injEq]
    constructor
    · rintro ⟨source, other, -, hkey, hset, hv⟩
      rw [setting?_set, if_pos (Variable.key_injective hkey)] at hset
      cases hset
      exact hv
    · intro hv
      exact ⟨setting.source, setting, rfl, rfl, by rw [setting?_set, if_pos rfl], hv⟩
  · next hk =>
    have hsame {source : Variable} (hkey : source.key = key) :
        (overrides.set setting).setting? source = overrides.setting? source := by
      rw [setting?_set, if_neg]
      rintro rfl
      exact hk hkey.symm
    rw [lookup_sectionEntries_eq_some_iff]
    constructor
    · rintro ⟨source, other, hs, hkey, hset, hv⟩
      exact ⟨source, other, hs, hkey, hsame hkey ▸ hset, hv⟩
    · rintro ⟨source, other, hs, hkey, hset, hv⟩
      exact ⟨source, other, hs, hkey, (hsame hkey).trans hset, hv⟩

theorem sectionEntries_set_of_ne {name : String} (h : name ≠ setting.source.sectionName) :
    (overrides.set setting).sectionEntries name = overrides.sectionEntries name := by
  refine List.filterMap_congr fun source hs => ?_
  rw [setting?_set, if_neg]
  rintro rfl
  exact h (of_decide_eq_true (List.mem_filter.mp hs).2).symm

theorem sectionLayer?_set (overrides : Overrides) (setting : Setting) :
    (overrides.set setting).sectionLayer? setting.source.sectionName =
      some (.table ((overrides.set setting).sectionEntries setting.source.sectionName)) := by
  have hkey := writes_sectionEntries overrides setting setting.source.key
  rw [if_pos rfl] at hkey
  unfold sectionLayer?
  split
  · next hnil =>
    rw [hnil] at hkey
    cases hkey
  · rfl

theorem writes_toValue (overrides : Overrides) (setting : Setting) :
    Writes overrides.toValue.entries setting.source.sectionName
      (.table ((overrides.set setting).sectionEntries setting.source.sectionName))
      (overrides.set setting).toValue.entries := by
  intro name
  rw [lookup_toValue, lookup_toValue]
  split
  · next he =>
    rw [he]
    exact sectionLayer?_set overrides setting
  · next hne => rw [sectionLayer?, sectionLayer?, sectionEntries_set_of_ne hne]

end Overrides

end QueryShape.Settings
