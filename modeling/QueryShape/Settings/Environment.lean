import QueryShape.Digits
import QueryShape.Settings
import QueryShape.Settings.Value

/-!
# Settings from the environment

Five variables set one setting each, in one more layer of configuration. The first that cannot be
read is reported.
-/

namespace QueryShape.Settings

abbrev Environment := List (String × String)

structure Overrides where
  level : Option LogLevel := none
  format : Option LogFormat := none
  filter : Option String := none
  maxDepth : Option Nat := none
  exactTypename : Option Bool := none
deriving DecidableEq, Repr

def truthWord? : String → Option Bool
  | "true" => some true
  | "false" => some false
  | _ => none

namespace Environment

/-- The value of a variable, if it is set; one that is set has to be readable. -/
def read? {α : Type} (environment : Environment) (name : String) (read : String → Option α) :
    Except SettingsError (Option α) :=
  match environment.lookup name with
  | none => return none
  | some text =>
      match read text with
      | some value => return some value
      | none => throw (.unreadableVariable name)

def overrides (environment : Environment) : Except SettingsError Overrides := do
  let level ← environment.read? "LOG_LEVEL" LogLevel.read?
  let format ← environment.read? "LOG_FORMAT" LogFormat.read?
  let filter ← environment.read? "LOG_FILTER" some
  let maxDepth ← environment.read? "TYPEGEN_MAX_DEPTH" (readBelow? UInt64.size ·.toList)
  let exactTypename ← environment.read? "TYPEGEN_EXACT_TYPENAME" truthWord?
  return { level, format, filter, maxDepth, exactTypename }

end Environment

namespace Overrides

/-- A section of the layer, which is left out if nothing in it is set. -/
def layerSection (name : String) (entries : List (String × Option Value)) : List (String × Value) :=
  match entries.filterMap fun (key, value?) => value?.map (key, ·) with
  | [] => []
  | entries => [(name, .table entries)]

def toValue (overrides : Overrides) : Value :=
  .table <|
    layerSection "log" [
      ("level", overrides.level.map fun level => .text level.name),
      ("format", overrides.format.map fun format => .text format.name),
      ("filter", overrides.filter.map .text)] ++
    layerSection "transform" [
      ("max_depth", overrides.maxDepth.map fun depth => .integer depth),
      ("exact_typename", overrides.exactTypename.map .bool)]

end Overrides
end QueryShape.Settings
