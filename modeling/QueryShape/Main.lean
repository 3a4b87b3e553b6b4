import QueryShape.CommandLine

/-!
# The program

Reads the files and variables that a command line may need, runs it, and writes what it leaves
behind.
-/

namespace QueryShape.Main

def paths (arguments : List String) : List String :=
  (arguments ++ Settings.defaultPaths).flatMap fun path => path :: Settings.extendedPaths path

/-- The error of a file that is there but cannot be read. -/
def readError? : IO.Error → Option ReadError
  | .noFileOrDirectory .. | .inappropriateType .. => none
  | .permissionDenied .. => some .denied
  | error => some (.other error.toString)

def readFiles (paths : List String) : IO Files := do
  let entries ← paths.mapM fun (path : String) => do
    try
      return some (path, Entry.file (.ok (← IO.FS.readBinFile path)))
    catch error => return (readError? error).map fun error => (path, .file (.error error))
  return { entries := entries.filterMap id }

def variableNames : List String :=
  ["LOG_LEVEL", "LOG_FORMAT", "LOG_FILTER", "TYPEGEN_MAX_DEPTH", "TYPEGEN_EXACT_TYPENAME"]

def readEnvironment : IO Settings.Environment := do
  let values ← variableNames.mapM fun name => do return (← IO.getEnv name).map (name, ·)
  return values.filterMap id

def leave (outcome : Outcome) : IO UInt32 := do
  for (path, entry) in outcome.written.entries do
    if let .file (.ok bytes) := entry then IO.FS.writeBinFile path bytes
  IO.print outcome.stdout
  IO.eprint outcome.stderr
  return UInt32.ofNat outcome.exitCode

def faultWords : LoadFault → String
  | .missingFile path => "configuration file \"" ++ path ++ "\" not found"
  | .unknownFormat path =>
      "configuration file \"" ++ path ++ "\" is not of a registered file format"
  | .unreadFile _ error => error.message
  | .malformedFile path => "configuration file \"" ++ path ++ "\" is malformed"
  | .notATable path => "the root of configuration file \"" ++ path ++ "\" is not a table"
  | .unknownKey key => "unknown field " ++ key
  | .invalidValue key => "invalid value for key " ++ key

/-- The words of the readers here. There is no logger. -/
def libraries : Libraries where
  settingsFault _ _ _ := faultWords
  schemaFault _ := "schema parse error"
  operationFault _ := "query parse error"

def describeSettings (arguments : List String) : IO UInt32 :=
  leave (CommandLine.describeSettings arguments)

end QueryShape.Main

def main (arguments : List String) : IO UInt32 := do
  let files ← QueryShape.Main.readFiles (QueryShape.Main.paths arguments)
  let environment ← QueryShape.Main.readEnvironment
  QueryShape.Main.leave (QueryShape.CommandLine.run files environment arguments
    QueryShape.Main.libraries)
