import QueryShape.Files
import QueryShape.Settings.Decode
import QueryShape.Settings.Environment
import QueryShape.Settings.Json5
import QueryShape.Settings.KeyPath
import QueryShape.Settings.Yaml
import QueryShape.Utf8

/-!
# Loading settings

Settings come from one file that is named, or else from those of four default files that there are.
The environment is read first and laid over the files.
-/

namespace QueryShape.Settings

inductive Format where
  | json
  | yaml
  | json5
deriving DecidableEq, Repr

namespace Format

def all : List Format := [.json, .yaml, .json5]

def extensions : Format → List String
  | .json => ["json"]
  | .yaml => ["yaml", "yml"]
  | .json5 => ["json5"]

def ofExtension? (extension : String) : Option Format :=
  all.find? (·.extensions.contains extension)

def parse? : Format → String → Option Value
  | .json => Json.parse?
  | .yaml => Yaml.parse?
  | .json5 => Json5.parse?

end Format

def extendedPaths (path : String) : List String :=
  (Format.all.flatMap Format.extensions).filterMap (Files.withExtension? path)

/-- The file of a path: the one at the path itself, or else the first with a known extension added
to its name. -/
def locate? (files : Files) (path : String) : Option (String × Content) :=
  (path :: extendedPaths path).findSome? fun path =>
    (files.find path).toOption.map (path, ·)

def withoutMark (text : String) : String :=
  match text.toList with
  | '\uFEFF' :: rest => String.ofList rest
  | _ => text

structure Source where
  path : String
  format : Format
  text : String

/-- Opens the file of a path. Bytes that are no text are replaced. -/
def openFile (files : Files) (path : String) : Reading Source := do
  let some (path, content) := locate? files path | throw (.missingFile path)
  let some format := Files.extension? path >>= Format.ofExtension? | throw (.unknownFormat path)
  match content with
  | .ok bytes => return { path, format, text := withoutMark (Utf8.decode bytes) }
  | .error error => throw (.unreadFile path error)

def Source.layer (source : Source) : Reading Value :=
  match source.format.parse? source.text with
  | none => throw (.malformedFile source.path)
  | some (.table entries) => return .table entries
  | some _ => throw (.notATable source.path)

def readFile (files : Files) (path : String) : Reading Value := do
  (← openFile files path).layer

/-- The layer in a file that may be left out: one that cannot be opened counts as absent. -/
def readFile? (files : Files) (path : String) : Reading (Option Value) :=
  match openFile files path with
  | .ok source => some <$> source.layer
  | .error _ => return none

def defaultPaths : List String :=
  ["typegen.config.yaml", "typegen.config.yml", "typegen.config.json", "typegen.config.json5"]

/-- The layers of configuration in files. -/
def fileLayers (files : Files) : Option String → Reading (List Value)
  | some path => do return [← readFile files path]
  | none => do return (← defaultPaths.mapM (readFile? files)).filterMap id

def laid (layers : List Value) : Value := layers.foldl Value.overlayFile (.table [])

def ofLayers (build : Build) (layers : List Value) (overrides : Overrides) : Reading Settings :=
  ofValue build ((laid layers).overlay overrides.toValue)

def load (files : Files) (environment : Environment) (path? : Option String)
    (build : Build := .debug) (words : LoadFault → String := fun _ => "") :
    Except SettingsError Settings := do
  let overrides ← environment.overrides
  (do ofLayers build (← fileLayers files path?) overrides).mapError (.unloadable <| words ·)

def ofYaml (text : String) (build : Build := .debug) (words : LoadFault → String := fun _ => "") :
    Except SettingsError Settings :=
  (do ofLayers build [← Source.layer ⟨"", .yaml, text⟩] {}).mapError (.unloadable <| words ·)

end QueryShape.Settings
