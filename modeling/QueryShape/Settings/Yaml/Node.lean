import QueryShape.Decimal
import QueryShape.Settings.Value

/-!
# Nodes of a YAML document

A node is a scalar, a sequence or a mapping of nodes to nodes. The kind of a scalar follows from its
tag, or else from its form if it is plain.
-/

namespace QueryShape.Settings.Yaml

inductive Scalar where
  | null
  | bool (value : Bool)
  | integer (value : Int)
  /-- A real number, which is compared as it is written. -/
  | real (written : String)
  | text (content : String)
deriving DecidableEq, Repr

inductive Node where
  | scalar (value : Scalar)
  /-- What is tagged as something that it is not, or refers to a node around it. -/
  | unreadable
  | sequence (items : List Node)
  | mapping (entries : List (Node × Node))

/-! ### Scalars -/

namespace Scalar

def signed? (digitsValue? : List Char → Option Nat) (text : List Char) : Option Int := do
  let (negative, digits) := match text with
    | '-' :: digits => (true, digits)
    | '+' :: digits => (false, digits)
    | digits => (false, digits)
  if digits.isEmpty then none
  let magnitude ← digitsValue? digits
  let value : Int := if negative then -(magnitude : Int) else magnitude
  if fitsSigned value then some value else none

def decimal? (digits : List Char) : Option Nat :=
  if digits.all Char.isDigit then some (digitsValue digits) else none

def octal? (digits : List Char) : Option Nat :=
  if digits.all fun c => '0' ≤ c && c ≤ '7' then
    some (digits.foldl (fun value digit => 8 * value + (digit.toNat - '0'.toNat)) 0)
  else none

def integer? (text : String) : Option Int := signed? decimal? text.toList

/-- The integer of a plain scalar: in base sixteen or eight behind a mark, else in base ten, where
one plus sign more may stand in front. -/
def plainInteger? (text : String) : Option Int :=
  let marked? := match text.toList with
    | '0' :: 'x' :: digits => signed? hexValue? digits
    | '0' :: 'o' :: digits => signed? octal? digits
    | '+' :: digits => signed? decimal? digits
    | _ => none
  marked?.or (integer? text)

def isNamedReal (text : String) : Bool :=
  [".inf", ".Inf", ".INF", "+.inf", "+.Inf", "+.INF", "-.inf", "-.Inf", "-.INF", ".nan", ".NaN",
    ".NAN"].contains text

def isReal (text : String) : Bool := isNamedReal text || (Decimal.read? text.toList).isSome

def bool? (text : String) : Option Bool :=
  if ["true", "True", "TRUE"].contains text then some true
  else if ["false", "False", "FALSE"].contains text then some false
  else none

/-- What a plain scalar without a tag is. -/
def ofPlain (text : String) : Scalar :=
  match plainInteger? text with
  | some value => .integer value
  | none =>
      if ["", "~", "null"].contains text then .null
      else
        match bool? text with
        | some value => .bool value
        | none => if isReal text then .real text else .text text

def ofKind? (kind text : String) : Option Scalar :=
  match kind with
  | "bool" => (bool? text).map .bool
  | "int" => (integer? text).map .integer
  | "float" => if isReal text then some (.real text) else none
  | "null" => if text = "~" || text = "null" then some .null else none
  | _ => some (.text text)

def key? : Scalar → Option String
  | .null => none
  | .bool value => some (if value then "true" else "false")
  | .integer value => some value.repr
  | .real written => some written
  | .text content => some content

def toValue? : Scalar → Option Value
  | .null => some .null
  | .bool value => some (.bool value)
  | .integer value => some (.integer value)
  | .real written => (Decimal.read? written.toList).map .real
  | .text content => some (.text content)

end Scalar

/-! ### Tags -/

structure Tag where
  start : String
  name : String
deriving DecidableEq, Repr

namespace Tag

def scalarStart : String := "tag:yaml.org,2002:"

def ofHandle? (declared : List (String × String)) (handle name : String) : Option Tag :=
  match declared.lookup handle with
  | some start => some ⟨start, name⟩
  | none =>
      if handle = "!!" then some ⟨scalarStart, name⟩
      else if handle = "!" || handle = "" then some ⟨handle, name⟩
      else none

end Tag

/-! ### Nodes -/

namespace Node

def null : Node := .scalar .null

def scalar? : Node → Option Scalar
  | .scalar value => some value
  | _ => none

def isReadable : Node → Bool
  | .unreadable => false
  | _ => true

/-- The node of a text with or without a tag. A text that is not plain is one whatever its tag. -/
def ofText (isPlain : Bool) (tag? : Option Tag) (content : String) : Node :=
  if !isPlain then .scalar (.text content)
  else
    match tag? with
    | none => .scalar (.ofPlain content)
    | some tag =>
        if tag.start = Tag.scalarStart then
          ((Scalar.ofKind? tag.name content).map Node.scalar).getD .unreadable
        else .scalar (.text content)

/-- Keys and values by turns. A key that is unreadable is left out and its value is taken for a
key. -/
def pairs : List Node → List (Node × Node)
  | key :: value :: nodes =>
      if key.isReadable then (key, value) :: pairs nodes else pairs (value :: nodes)
  | _ => []

mutual

/-- Whether two nodes are the same, mappings with their entries in the same order. -/
def same : Node → Node → Bool
  | .scalar first, .scalar second => first = second
  | .unreadable, .unreadable => true
  | .sequence first, .sequence second => sameItems first second
  | .mapping first, .mapping second => sameEntries first second
  | _, _ => false

def sameItems : List Node → List Node → Bool
  | [], [] => true
  | first :: firsts, second :: seconds => first.same second && sameItems firsts seconds
  | _, _ => false

def sameEntries : List (Node × Node) → List (Node × Node) → Bool
  | [], [] => true
  | (key, value) :: firsts, (otherKey, otherValue) :: seconds =>
      key.same otherKey && value.same otherValue && sameEntries firsts seconds
  | _, _ => false

end

def areDistinct : List Node → Bool
  | [] => true
  | first :: others => !others.any first.same && areDistinct others

def mapping? (nodes : List Node) : Option Node :=
  let entries := pairs nodes
  if areDistinct (entries.map Prod.fst) then some (.mapping entries) else none

mutual

def toValue? : Node → Option Value
  | .scalar value => value.toValue?
  | .unreadable => some .null
  | .sequence items => (itemValues? items).map .list
  | .mapping entries => (entryValues? entries).map Value.tableOf

def itemValues? : List Node → Option (List Value)
  | [] => some []
  | item :: items => do return (← item.toValue?) :: (← itemValues? items)

def entryValues? : List (Node × Node) → Option (List (String × Value))
  | [] => some []
  | (key, value) :: entries => do
      let key ← key.scalar? >>= Scalar.key?
      return (key, ← value.toValue?) :: (← entryValues? entries)

end

end Node
end QueryShape.Settings.Yaml
