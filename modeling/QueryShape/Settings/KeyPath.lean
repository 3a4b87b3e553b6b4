import QueryShape.Settings.Json

/-!
# Key paths

A key at the root of a file is a path such as `log.level` or `log[0]`. A value is laid over what
there is at the end of its path, and what is missing on the way is made.
-/

namespace QueryShape.Settings

/-- A step of a path: to the entry of a table, or to an item of a list. A negative position counts
from the end. -/
inductive Step where
  | entry (name : String)
  | item (position : Int)
deriving DecidableEq, Repr

abbrev KeyPath := List Step

namespace KeyPath

open QueryShape.Parser
open QueryShape.Settings.Json (Reader char digits)

/-! ### Reading -/

def isNameCharacter (c : Char) : Bool := c.isAlphanum || c = '_' || c = '-'

def name : Reader String := do
  let characters ← takeWhile isNameCharacter
  if characters.isEmpty then failure else return String.ofList characters

def blanks : Reader Unit := discard (takeWhile fun c => c = ' ' || c = '\t')

def position : Reader Int := do
  blanks
  let negative ← skipIf (· = '-')
  let magnitude := digitsValue (← digits)
  blanks
  char ']'
  let position : Int := if negative then -(magnitude : Int) else magnitude
  if fitsSigned position then return position else failure

def step : Reader Step := do
  if ← skipIf (· = '.') then return .entry (← name)
  char '['
  return .item (← position)

def path : Reader KeyPath := do
  let first ← name
  return .entry first :: (← manyWhile (fun c => c = '.' || c = '[') step)

/-- The path that a key is; a key that is none is a name. -/
def ofKey (key : String) : KeyPath := (runAll path key.toList).getD [.entry key]

end KeyPath

/-! ### Changing a value along a path -/

namespace Value

def items : Value → List Value
  | .list items => items
  | _ => []

def alterEntry (name : String) (change : Value → Value) (value : Value) : Value :=
  .table (OrderedMap.put name (change ((value.entries.lookup name).getD .null)) value.entries)

/-- A list that is long enough for a position, and the index that the position is there. The list
grows by null: behind its end, or in front for a position before its first item. -/
def reach (position : Int) (items : List Value) : List Value × Nat :=
  let index := if position < 0 then items.length + position else position
  if index < 0 then (List.replicate (-index).toNat .null ++ items, 0)
  else (items ++ List.replicate (index.toNat + 1 - items.length) .null, index.toNat)

def alterItem (position : Int) (change : Value → Value) (value : Value) : Value :=
  let (items, index) := reach position value.items
  .list (items.modify index change)

/-- Lays a value over what there is at the end of a path. -/
def overlayAt (upper lower : Value) : KeyPath → Value
  | [] => lower.overlay upper
  | .entry name :: steps => lower.alterEntry name (overlayAt upper · steps)
  | .item position :: steps => lower.alterItem position (overlayAt upper · steps)

def overlayFile (lower file : Value) : Value :=
  file.entries.foldl (fun lower (key, upper) => overlayAt upper lower (KeyPath.ofKey key)) lower

end Value
end QueryShape.Settings
