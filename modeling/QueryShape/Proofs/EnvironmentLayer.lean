import QueryShape.Proofs.EnvironmentReading
import QueryShape.Settings.Load

/-!
# The environment over the files

One variable more changes the setting that is its own, unless the files make its section a list. A
variable that cannot be read is reported before any file is looked for.
-/

namespace QueryShape.Settings

open Outcome

/-! ### One setting more -/

/-- The table that a section becomes under the layer of the environment. -/
def sectionTable (base : Value) (overrides : Overrides) (name : String) : List (String × Value) :=
  Value.overlayEntries ((base.entries.lookup name).getD .null).entries
    (overrides.sectionEntries name)

def ShowsList (base : Value) (overrides : Overrides) (name : String) : Prop :=
  overrides.sectionEntries name = [] ∧ ∃ items, base.entries.lookup name = some (.list items)

section

variable {build : Build} {base : Value} {overrides : Overrides} {setting : Setting}
  {settings : Settings} {name : String}

theorem lookup_overlay_toValue (hb : base.Tidy) (overrides : Overrides) (name : String) :
    (base.overlay overrides.toValue).entries.lookup name =
      match overrides.sectionEntries name with
      | [] => base.entries.lookup name
      | _ => some (.table (sectionTable base overrides name)) := by
  rw [Overrides.toValue_eq_table, Value.entries_overlay,
    Value.lookup_overlayEntries hb.distinct overrides.distinct_toValue, Overrides.lookup_toValue,
    Overrides.sectionLayer?, sectionTable]
  cases overrides.sectionEntries name with
  | nil => rfl
  | cons entry rest => simp only [Value.overlay]

theorem writes_sectionTable (hb : base.Tidy) (overrides : Overrides) (setting : Setting) :
    Writes (sectionTable base overrides setting.source.sectionName) setting.source.key
      setting.value (sectionTable base (overrides.set setting) setting.source.sectionName) := by
  have h := (overrides.writes_sectionEntries setting).overlayEntries
    (Value.distinct_getD_lookup hb setting.source.sectionName)
    (overrides.distinct_sectionEntries _) ((overrides.set setting).distinct_sectionEntries _)
  rwa [Setting.overlay_value] at h

theorem writes_overlay_toValue (hb : base.Tidy) (overrides : Overrides) (setting : Setting) :
    Writes (base.overlay overrides.toValue).entries setting.source.sectionName
      (.table (sectionTable base (overrides.set setting) setting.source.sectionName))
      (base.overlay (overrides.set setting).toValue).entries := by
  have h := (overrides.writes_toValue setting).overlayEntries hb.distinct
    overrides.distinct_toValue (overrides.set setting).distinct_toValue
  rwa [Value.overlay] at h

theorem distinct_sectionTable (hb : base.Tidy) (overrides : Overrides) (name : String) :
    Distinct (sectionTable base overrides name) :=
  (Value.distinct_getD_lookup hb name).overlayEntries _

section

variable {α : Type} {start a b : α} {keys : List String} {only : String → α → α}
  {read : α → String → Value → Reading α}

/-- What is read for a section is what its table reads as, unless it is a list. -/
theorem readEntries_sectionTable (hb : base.Tidy)
    (h : ((base.overlay overrides.toValue).entries.lookup name).elim (.ok start)
      (readKeyed start name keys read) = .ok a) (hlist : ¬ ShowsList base overrides name) :
    readEntries start read (sectionTable base overrides name) = .ok a := by
  rw [lookup_overlay_toValue hb] at h
  cases hs : overrides.sectionEntries name with
  | cons entry rest =>
      rw [hs] at h
      exact h
  | nil =>
      -- The section is what the files make it: a table that is read as it is, or nothing.
      rw [hs] at h
      simp only [sectionTable, hs, Value.overlayEntries]
      cases hv : base.entries.lookup name with
      | none =>
          rw [hv] at h
          exact h
      | some value =>
          rw [hv] at h
          cases value with
          | table entries => exact h
          | list items => exact absurd ⟨hs, items, hv⟩ hlist
          | _ => cases h

theorem readEntries_sectionTable_of_list (h : ShowsList base overrides name) :
    readEntries start read (sectionTable base overrides name) = .ok start := by
  obtain ⟨hs, items, hv⟩ := h
  rw [sectionTable, hs, hv, Value.overlayEntries]
  rfl

theorem ofValue_set_of_section (hr : KeyByKey start keys only read) (hb : base.Tidy)
    {after : Settings} (h : ofValue build (base.overlay overrides.toValue) = .ok settings)
    (htable : readEntries start read (sectionTable base overrides setting.source.sectionName) =
      .ok a)
    (hvalue : read a setting.source.key setting.value = .ok b)
    (hafter : ∀ entries, readEntries start read entries = .ok b →
      readSection build settings setting.source.sectionName (.table entries) = .ok after) :
    ofValue build (base.overlay (overrides.set setting).toValue) = .ok after := by
  have hsection := hr.readEntries_of_writes (writes_sectionTable hb overrides setting)
    (distinct_sectionTable hb _ _) (distinct_sectionTable hb _ _) htable hvalue
  exact keyByKey_section.readEntries_of_writes (writes_overlay_toValue hb overrides setting)
    (Value.distinct_overlay hb.distinct _) (Value.distinct_overlay hb.distinct _) h
    (hafter _ hsection)

end

theorem ofValue_set_log (hb : base.Tidy) {log : LogSettings}
    (hs : setting.source.sectionName = "log")
    (h : ofValue build (base.overlay overrides.toValue) = .ok settings)
    (hlog : readEntries (.initial build) readLogSetting (sectionTable base overrides "log") =
      .ok log) :
    ofValue build (base.overlay (overrides.set setting).toValue) =
      .ok (setting.apply { settings with log }) := by
  obtain ⟨hvalue, happly⟩ := Setting.readLogSetting_value hs { settings with log }
  refine ofValue_set_of_section (keyByKey_log _) hb h (hs ▸ hlog) hvalue fun entries he => ?_
  rw [hs]
  exact readSection_log_eq_ok_iff.mpr ⟨_, he, happly⟩

theorem ofValue_set_transform (hb : base.Tidy) {transform : Options}
    (hs : setting.source.sectionName = "transform")
    (h : ofValue build (base.overlay overrides.toValue) = .ok settings)
    (htransform : readEntries {} readTransformSetting (sectionTable base overrides "transform") =
      .ok transform) :
    ofValue build (base.overlay (overrides.set setting).toValue) =
      .ok (setting.apply { settings with transform }) := by
  obtain ⟨hvalue, happly⟩ := Setting.readTransformSetting_value hs { settings with transform }
  refine ofValue_set_of_section keyByKey_transform hb h (hs ▸ htransform) hvalue
    fun entries he => ?_
  rw [hs]
  exact readSection_transform_eq_ok_iff.mpr ⟨_, he, happly⟩

/-- Settings whose section `name` is as if nothing had been set in it. -/
def reset (build : Build) (settings : Settings) (name : String) : Settings :=
  match name with
  | "log" => { settings with log := .initial build }
  | "transform" => { settings with transform := {} }
  | _ => settings

theorem Variable.sectionName_eq_or (source : Variable) :
    source.sectionName = "log" ∨ source.sectionName = "transform" := by
  cases source <;> simp [Variable.sectionName]

/-- One setting more changes that setting only, unless a list has to make way for it. -/
theorem ofValue_set (hb : base.Tidy)
    (h : ofValue build (base.overlay overrides.toValue) = .ok settings)
    (hlist : ¬ ShowsList base overrides setting.source.sectionName) :
    ofValue build (base.overlay (overrides.set setting).toValue) =
      .ok (setting.apply settings) := by
  have hd := Value.distinct_overlay hb.distinct overrides.toValue
  rcases setting.source.sectionName_eq_or with hs | hs <;> rw [hs] at hlist
  · exact ofValue_set_log hb hs h
      (readEntries_sectionTable hb (log_of_readEntries hd h) hlist)
  · exact ofValue_set_transform hb hs h
      (readEntries_sectionTable hb (transform_of_readEntries hd h) hlist)

theorem ofValue_set_of_list (hb : base.Tidy)
    (h : ofValue build (base.overlay overrides.toValue) = .ok settings)
    (hlist : ShowsList base overrides setting.source.sectionName) :
    ofValue build (base.overlay (overrides.set setting).toValue) =
      .ok (setting.apply (reset build settings setting.source.sectionName)) := by
  rcases setting.source.sectionName_eq_or with hs | hs <;> rw [hs] at hlist ⊢
  · exact ofValue_set_log hb hs h (readEntries_sectionTable_of_list hlist)
  · exact ofValue_set_transform hb hs h (readEntries_sectionTable_of_list hlist)

end

/-! ### Loading -/

theorem tidy_laid (layers : List Value) : (laid layers).Tidy :=
  List.foldlRecOn layers _ .empty fun _ hl layer _ => hl.overlayFile layer

def Value.isList : Value → Bool
  | .list _ => true
  | _ => false

theorem Value.isList_iff {value : Value} : value.isList = true ↔ ∃ items, value = .list items := by
  cases value <;> simp [isList]

/-- The files make a section a list, and the environment sets nothing in it. -/
structure ListInTheWay (files : Files) (environment : Environment) (path? : Option String)
    (name : String) : Prop where
  unset (source : Variable) (h : source.sectionName = name) :
    environment.lookup source.name = none
  isList : ∃ layers items, fileLayers files path? = .ok layers ∧
    (laid layers).entries.lookup name = some (.list items)

variable {files : Files} {environment : Environment} {path? : Option String} {build : Build}
  {words : LoadFault → String}

theorem load_eq_ok_iff {settings : Settings} :
    load files environment path? build words = .ok settings ↔ ∃ overrides layers,
      environment.overrides = .ok overrides ∧ fileLayers files path? = .ok layers ∧
        ofValue build ((laid layers).overlay overrides.toValue) = .ok settings := by
  simp only [load, ofLayers, bind_eq_ok, mapError_eq_ok_iff]
  constructor
  · rintro ⟨overrides, ho, layers, hl, h⟩
    exact ⟨overrides, layers, ho, hl, h⟩
  · rintro ⟨overrides, layers, ho, hl, h⟩
    exact ⟨overrides, ho, layers, hl, h⟩

theorem sectionEntries_eq_nil_iff {overrides : Overrides} {name : String}
    (ho : environment.overrides = .ok overrides) :
    overrides.sectionEntries name = [] ↔
      ∀ source : Variable, source.sectionName = name → environment.lookup source.name = none := by
  rw [Environment.overrides_eq_ok_iff] at ho
  have hsource (source : Variable) :
      overrides.setting? source = none ↔ environment.lookup source.name = none := by
    obtain ⟨hu, hs⟩ := ho source
    rw [hs, Environment.setting?]
    cases hl : environment.lookup source.name with
    | none => simp
    | some text => simpa [Environment.isUnreadable, hl, Option.isSome_iff_ne_none] using hu
  simp [Overrides.sectionEntries, List.filterMap_eq_nil_iff, Variable.mem_all, hsource]

theorem showsList_iff {overrides : Overrides} {layers : List Value} {name : String}
    (ho : environment.overrides = .ok overrides) (hl : fileLayers files path? = .ok layers) :
    ShowsList (laid layers) overrides name ↔ ListInTheWay files environment path? name := by
  rw [ShowsList, sectionEntries_eq_nil_iff ho]
  constructor
  · rintro ⟨hunset, items, hv⟩
    exact ⟨hunset, layers, items, hl, hv⟩
  · rintro ⟨hunset, layers', items, hl', hv⟩
    cases hl.symm.trans hl'
    exact ⟨hunset, items, hv⟩

/-- A variable that cannot be read is reported, the first of them, whatever files there are. One
variable more, if it can be read, spoils nothing and changes the setting that is its own; where the
files make its section a list and nothing else is set in it, the list makes way for a table, and the
other settings of the section are the defaults. -/
theorem load_with_variable (files : Files) (environment : Environment) (path? : Option String)
    (build : Build) (words : LoadFault → String) :
    (∀ source, environment.isUnreadable source = true → ∃ first,
      Variable.all.find? environment.isUnreadable = some first ∧
        load files environment path? build words = .error (.unreadableVariable first.name)) ∧
      ∀ (source : Variable) (text : String) (setting : Setting) (settings : Settings),
        source.read? text = some setting → load files environment path? build words = .ok settings →
          (¬ ListInTheWay files environment path? source.sectionName →
            load files ((source.name, text) :: environment) path? build words =
              .ok (setting.apply settings)) ∧
          (ListInTheWay files environment path? source.sectionName →
            load files ((source.name, text) :: environment) path? build words =
              .ok (setting.apply (reset build settings source.sectionName))) := by
  constructor
  · intro source hu
    cases hfirst : Variable.all.find? environment.isUnreadable with
    | none => exact absurd hu (List.find?_eq_none.mp hfirst source source.mem_all)
    | some first =>
        refine ⟨first, rfl, ?_⟩
        rw [load, Environment.overrides_of_first hfirst]
        rfl
  · intro source text setting settings hread hload
    obtain rfl := Setting.source_of_read? hread
    obtain ⟨overrides, layers, ho, hl, hvalue⟩ := load_eq_ok_iff.mp hload
    have ho' := Environment.overrides_cons ho hread
    rw [← showsList_iff ho hl]
    constructor
    · intro hlist
      exact load_eq_ok_iff.mpr ⟨_, layers, ho', hl, ofValue_set (tidy_laid layers) hvalue hlist⟩
    · intro hlist
      exact load_eq_ok_iff.mpr
        ⟨_, layers, ho', hl, ofValue_set_of_list (tidy_laid layers) hvalue hlist⟩

theorem listInTheWay_iff {name : String} : ListInTheWay files environment path? name ↔
    (∀ source ∈ Variable.all, source.sectionName = name → environment.lookup source.name = none) ∧
      ((fileLayers files path?).toOption.bind fun layers =>
        (laid layers).entries.lookup name).any Value.isList = true := by
  have hlist : ((fileLayers files path?).toOption.bind fun layers =>
      (laid layers).entries.lookup name).any Value.isList = true ↔
        ∃ layers items, fileLayers files path? = .ok layers ∧
          (laid layers).entries.lookup name = some (.list items) := by
    simp [Option.any_eq_true, Option.bind_eq_some_iff, toOption_eq_some_iff, Value.isList_iff]
    tauto
  rw [hlist]
  exact ⟨fun h => ⟨fun source _ => h.unset source, h.isList⟩,
    fun h => ⟨fun source => h.1 source source.mem_all, h.2⟩⟩

instance (name : String) : Decidable (ListInTheWay files environment path? name) :=
  decidable_of_iff' _ listInTheWay_iff

def listed : Files :=
  [("c.json", "\x7b\"log\": [\"trace\"], \"transform\": \x7b\"max_depth\": 3\x7d\x7d")]

private theorem load_listed : load listed [] (some "c.json") =
    .ok { log := { level := .trace }, transform := { maxDepth := 3 } } := by decide +kernel

theorem load_with_variable_listed :
    load listed [] (some "c.json") =
        .ok { log := { level := .trace }, transform := { maxDepth := 3 } } ∧
      ListInTheWay listed [] (some "c.json") "log" ∧
      load listed [("LOG_FORMAT", "json")] (some "c.json") =
        .ok { log := { level := .debug, format := .json }, transform := { maxDepth := 3 } } ∧
      ¬ ListInTheWay listed [] (some "c.json") "transform" ∧
      load listed [("TYPEGEN_EXACT_TYPENAME", "true")] (some "c.json") =
        .ok { log := { level := .trace }, transform := ⟨3, true⟩ } ∧
      load listed [("LOG_LEVEL", "Info"), ("TYPEGEN_MAX_DEPTH", "deep")] (some "c.json") =
        .error (.unreadableVariable "TYPEGEN_MAX_DEPTH") := by
  have hlist : ListInTheWay listed [] (some "c.json") "log" := by decide +kernel
  have hnone : ¬ ListInTheWay listed [] (some "c.json") "transform" := by decide +kernel
  obtain ⟨-, hset⟩ := load_with_variable listed [] (some "c.json") .debug fun _ => ""
  have hlog := (hset .logFormat "json" (.format .json) _ rfl load_listed).2 hlist
  have htransform :=
    (hset .exactTypename "true" (.exactTypename true) _ rfl load_listed).1 hnone
  obtain ⟨hreport, -⟩ := load_with_variable listed
    [("LOG_LEVEL", "Info"), ("TYPEGEN_MAX_DEPTH", "deep")] (some "c.json") .debug fun _ => ""
  obtain ⟨first, hfirst, herror⟩ := hreport .maxDepth rfl
  have hdepth : Variable.all.find? (Environment.isUnreadable
      [("LOG_LEVEL", "Info"), ("TYPEGEN_MAX_DEPTH", "deep")]) = some .maxDepth := by decide +kernel
  cases hdepth.symm.trans hfirst
  exact ⟨load_listed, hlist, hlog, hnone, htransform, herror⟩

/-- The level goes with the list that it is an item of, though only the format is set. -/
theorem level_lost_with_list :
    Variable.logFormat.read? "json" = some (.format .json) ∧
      load listed [] (some "c.json") =
        .ok { log := { level := .trace }, transform := { maxDepth := 3 } } ∧
      load listed [("LOG_FORMAT", "json")] (some "c.json") =
        .ok { log := { level := .debug, format := .json }, transform := { maxDepth := 3 } } ∧
      ({ log := { level := .debug, format := .json }, transform := { maxDepth := 3 } } : Settings) ≠
        Setting.apply { log := { level := .trace }, transform := { maxDepth := 3 } }
          (.format .json) :=
  ⟨rfl, load_listed, by decide +kernel, by decide⟩

end QueryShape.Settings
