import QueryShape.Proofs.EnvironmentLayer

/-!
# Settings loaded or not

Either the settings are made of files and environment, or a variable or the files are at fault.
-/

namespace QueryShape.Settings

open Outcome
open Variable (ReadBy)

/-- What the environment sets, all of it readable. -/
structure Environment.Sets (environment : Environment) (overrides : Overrides) : Prop where
  readable (source : Variable) : environment.isUnreadable source = false
  sets (source : Variable) : overrides.setting? source = environment.setting? source

section

variable (files : Files) (environment : Environment) (path? : Option String) (build : Build)

/-- The files, below what the environment sets, make these settings. -/
inductive Configured (settings : Settings) : Prop where
  | intro {layers : List Value} {overrides : Overrides} (hl : fileLayers files path? = .ok layers)
      (ho : environment.Sets overrides)
      (h : ofValue build ((laid layers).overlay overrides.toValue) = .ok settings)

/-- The environment can be read, but the files make no settings. -/
inductive Misconfigured (fault : LoadFault) : Prop where
  | layers {overrides : Overrides} (ho : environment.Sets overrides)
      (h : fileLayers files path? = .error fault)
  | values {layers : List Value} {overrides : Overrides} (ho : environment.Sets overrides)
      (hl : fileLayers files path? = .ok layers)
      (h : ofValue build ((laid layers).overlay overrides.toValue) = .error fault)

end

variable {files : Files} {environment : Environment} {path? : Option String} {build : Build}
  {words : LoadFault → String}

theorem Environment.overrides_eq_ok_iff_sets {overrides : Overrides} :
    environment.overrides = .ok overrides ↔ environment.Sets overrides := by
  rw [Environment.overrides_eq_ok_iff]
  constructor
  · intro h
    exact ⟨fun source => (h source).1, fun source => (h source).2⟩
  · intro h source
    exact ⟨h.readable source, h.sets source⟩

theorem Environment.exists_overrides (h : ∀ source, environment.isUnreadable source = false) :
    ∃ overrides, environment.overrides = .ok overrides := by
  obtain ⟨level, hl⟩ := ReadBy.logLevel.exists_eq_ok (h .logLevel)
  obtain ⟨format, hf⟩ := ReadBy.logFormat.exists_eq_ok (h .logFormat)
  obtain ⟨filter, hi⟩ := ReadBy.logFilter.exists_eq_ok (h .logFilter)
  obtain ⟨depth, hd⟩ := ReadBy.maxDepth.exists_eq_ok (h .maxDepth)
  obtain ⟨exact, he⟩ := ReadBy.exactTypename.exists_eq_ok (h .exactTypename)
  refine ⟨⟨level, format, filter, depth, exact⟩, overrides_eq_ok_iff.mpr fun source => ?_⟩
  cases source with
  | logLevel => exact ReadBy.logLevel.eq_ok_iff.mp hl
  | logFormat => exact ReadBy.logFormat.eq_ok_iff.mp hf
  | logFilter => exact ReadBy.logFilter.eq_ok_iff.mp hi
  | maxDepth => exact ReadBy.maxDepth.eq_ok_iff.mp hd
  | exactTypename => exact ReadBy.exactTypename.eq_ok_iff.mp he

theorem Environment.overrides_eq_error_iff {error : SettingsError} :
    environment.overrides = .error error ↔ ∃ source,
      Variable.all.find? environment.isUnreadable = some source ∧
        .unreadableVariable source.name = error := by
  cases hfirst : Variable.all.find? environment.isUnreadable with
  | some source => simp [Environment.overrides_of_first hfirst]
  | none =>
      obtain ⟨overrides, ho⟩ := Environment.exists_overrides fun source =>
        Bool.eq_false_iff.mpr (List.find?_eq_none.mp hfirst source source.mem_all)
      simp [ho]

theorem load_eq_ok_iff_configured {settings : Settings} :
    load files environment path? build words = .ok settings ↔
      Configured files environment path? build settings := by
  rw [load_eq_ok_iff]
  simp only [Environment.overrides_eq_ok_iff_sets]
  constructor
  · rintro ⟨overrides, layers, ho, hl, h⟩
    exact ⟨hl, ho, h⟩
  · rintro ⟨hl, ho, h⟩
    exact ⟨_, _, ho, hl, h⟩

theorem load_eq_error_iff {error : SettingsError} :
    load files environment path? build words = .error error ↔
      (∃ source, Variable.all.find? environment.isUnreadable = some source ∧
        .unreadableVariable source.name = error) ∨
      ∃ fault, Misconfigured files environment path? build fault ∧
        .unloadable (words fault) = error := by
  simp only [load, ofLayers, bind_eq_error, mapError_eq_error_iff,
    Environment.overrides_eq_error_iff, Environment.overrides_eq_ok_iff_sets]
  refine or_congr_right ?_
  constructor
  · rintro ⟨overrides, ho, fault, h | ⟨layers, hl, h⟩, rfl⟩
    · exact ⟨fault, .layers ho h, rfl⟩
    · exact ⟨fault, .values ho hl h, rfl⟩
  · rintro ⟨fault, ⟨ho, h⟩ | ⟨ho, hl, h⟩, rfl⟩
    · exact ⟨_, ho, fault, .inl h, rfl⟩
    · exact ⟨_, ho, fault, .inr ⟨_, hl, h⟩, rfl⟩

/-- A filter in the environment stands above whatever the files say of the log. -/
theorem Configured.filter_eq {settings : Settings}
    (h : Configured files environment path? build settings) {filter : String}
    (hf : environment.lookup "LOG_FILTER" = some filter) : settings.log.filter = some filter := by
  obtain @⟨layers, overrides, -, ho, hv⟩ := h
  have hb := tidy_laid layers
  have hset : overrides.setting? .logFilter = some (.filter filter) := by
    rw [ho.sets, Environment.setting?, Variable.name, hf]
    rfl
  have hentry : (overrides.sectionEntries "log").lookup "filter" = some (.text filter) :=
    Overrides.lookup_sectionEntries_eq_some_iff.mpr ⟨.logFilter, _, rfl, rfl, hset, rfl⟩
  have hlog := log_of_readEntries (Value.distinct_overlay hb.distinct overrides.toValue) hv
  have htable : readEntries (.initial build) readLogSetting (sectionTable (laid layers) overrides
      "log") = .ok settings.log := by
    refine readEntries_sectionTable hb hlog fun hlist => ?_
    rw [hlist.1] at hentry
    cases hentry
  have hread := (((keyByKey_log (.initial build)).readEntries_eq_ok_iff
    (distinct_sectionTable hb overrides "log")).mp htable).2 "filter" (by decide)
  rw [sectionTable, Value.lookup_overlayEntries (Value.distinct_getD_lookup hb "log")
    (overrides.distinct_sectionEntries "log"), hentry] at hread
  have hsame : { LogSettings.initial build with filter := some filter } =
      onlyLog (.initial build) "filter" settings.log := by
    simpa [Value.overlay, readLogSetting, orInvalid, Value.text?] using hread
  exact (congrArg LogSettings.filter hsame).symm

end QueryShape.Settings
