import QueryShape.OrderedMap

/-!
# Layered values

What a configuration file holds, whatever its format. Files are layers: a later layer is laid over
the earlier ones, tables key by key, while anything else replaces what is below it.
-/

namespace QueryShape.Settings

inductive Value where
  | null
  | bool (value : Bool)
  | integer (value : Int)
  | real (value : Float)
  | text (value : String)
  | list (items : List Value)
  | table (entries : List (String × Value))

namespace Value

instance : Inhabited Value := ⟨.null⟩

def entries : Value → List (String × Value)
  | .table entries => entries
  | _ => []

def tableOf (entries : List (String × Value)) : Value := .table (OrderedMap.ofList entries).entries

mutual

/-- The value `upper` laid over the value `lower`. -/
def overlay (lower upper : Value) : Value :=
  match upper with
  | .table entries => .table (overlayEntries lower.entries entries)
  | .null => .null
  | .bool value => .bool value
  | .integer value => .integer value
  | .real value => .real value
  | .text value => .text value
  | .list items => .list items

def overlayEntries (lower : List (String × Value)) :
    List (String × Value) → List (String × Value)
  | [] => lower
  | (key, value) :: rest =>
      let below := (lower.lookup key).getD .null
      overlayEntries (OrderedMap.put key (below.overlay value) lower) rest

end

end Value
end QueryShape.Settings
