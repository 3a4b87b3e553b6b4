import QueryShape.Decimal
import QueryShape.Settings
import QueryShape.Settings.Value

/-!
# Reading settings from values

The root is a table of sections, and a section a table of settings or a list of them in their order.
Numbers, truth values and texts stand for each other where that makes sense.
-/

namespace QueryShape.Settings

namespace Value

def isTrueWord (text : String) : Bool := ["true", "on", "yes"].contains (lowerCase text)

def isFalseWord (text : String) : Bool := ["false", "off", "no"].contains (lowerCase text)

/-- A natural number of 64 bits. A real number is rounded, a half away from zero, and then cut off
to the range; a text is a number or a word for a truth value, which counts one or zero. -/
def natural? : Value → Option Nat
  | .integer value => if value < 0 then none else some value.toNat
  | .real value => some value.round.toUInt64.toNat
  | .bool value => some value.toNat
  | .text word =>
      if isTrueWord word then some 1
      else if isFalseWord word then some 0
      else readBelow? UInt64.size word.toList
  | .null | .list _ | .table _ => none

/-- A truth value. A number is true unless it is zero, a text by its word. -/
def truth? : Value → Option Bool
  | .bool value => some value
  | .integer value => some (value ≠ 0)
  | .real value => some (value != 0)
  | .text word =>
      if word = "1" || isTrueWord word then some true
      else if word = "0" || isFalseWord word then some false
      else none
  | .null | .list _ | .table _ => none

def text? : Value → Option String
  | .text content => some content
  | .bool value => some (if value then "true" else "false")
  | .integer value => some value.repr
  | .real value => some (Decimal.text value)
  | .null | .list _ | .table _ => none

/-- The name of one of several choices: a text, or the only key of a table. -/
def choice? : Value → Option String
  | .text name => some name
  | .table [(name, _)] => some name
  | _ => none

end Value

abbrev Reading := Except LoadFault

def orInvalid {α : Type} (key : String) : Option α → Reading α
  | some value => return value
  | none => throw (.invalidValue key)

def readEntries {α : Type} (start : α) (read : α → String → Value → Reading α)
    (entries : List (String × Value)) : Reading α :=
  entries.foldlM (fun settings (key, value) => read settings key value) start

/-- Reads the section `name`, a table or a list of settings in the order of `keys`. -/
def readKeyed {α : Type} (start : α) (name : String) (keys : List String)
    (read : α → String → Value → Reading α) : Value → Reading α
  | .table entries => readEntries start read entries
  | .list items => readEntries start read (keys.zip items)
  | _ => throw (.invalidValue name)

def readLogSetting (log : LogSettings) (key : String) (value : Value) : Reading LogSettings :=
  match key with
  | "level" => do
      return { log with level := ← orInvalid key (value.choice? >>= LogLevel.ofName?) }
  | "format" => do
      return { log with format := ← orInvalid key (value.choice? >>= LogFormat.ofName?) }
  | "filter" =>
      match value with
      | .null => return { log with filter := none }
      | value => do return { log with filter := some (← orInvalid key value.text?) }
  | key => throw (.unknownKey key)

def readTransformSetting (transform : Options) (key : String) (value : Value) : Reading Options :=
  match key with
  | "max_depth" => do return { transform with maxDepth := ← orInvalid key value.natural? }
  | "exact_typename" => do return { transform with exactTypename := ← orInvalid key value.truth? }
  | key => throw (.unknownKey key)

def readSection (build : Build) (settings : Settings) (key : String) (value : Value) :
    Reading Settings :=
  match key with
  | "log" => do
      let log ← readKeyed (.initial build) key ["level", "format", "filter"] readLogSetting value
      return { settings with log }
  | "transform" => do
      let transform ← readKeyed {} key ["max_depth", "exact_typename"] readTransformSetting value
      return { settings with transform }
  | key => throw (.unknownKey key)

def ofValue (build : Build) (value : Value) : Reading Settings :=
  readEntries (.initial build) (readSection build) value.entries

end QueryShape.Settings
