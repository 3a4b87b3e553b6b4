import QueryShape.Decimal
import QueryShape.Letters
import QueryShape.Settings.Json

/-!
# Configuration in JSON5

JSON with comments, unquoted keys, single quotes, trailing commas and more ways to write a number.
-/

namespace QueryShape.Settings.Json5

open QueryShape.Parser
open QueryShape.Settings.Json (Reader char chars codePoint hexDigits)

def isLineEnd (c : Char) : Bool := c = '\n' || c = '\r' || c = '\u2028' || c = '\u2029'

def isBlank (c : Char) : Bool :=
  isLineEnd c || c = '\t' || c = '\x0b' || c = '\x0c' || c = ' ' || c = '\u00a0' || c = '\uFEFF' ||
    c = '\u1680' || ('\u2000' ≤ c && c ≤ '\u200a') || c = '\u202f' || c = '\u205f' || c = '\u3000'

def afterBlockComment? : List Char → Option (List Char)
  | [] => none
  | '*' :: '/' :: rest => some rest
  | _ :: rest => afterBlockComment? rest

def separator : Reader Unit
  | '/' :: '/' :: rest => some ((), rest.dropWhile (!isLineEnd ·))
  | '/' :: '*' :: rest => (afterBlockComment? rest).map ((), ·)
  | c :: rest => if isBlank c then some ((), rest) else none
  | [] => none

def blanks : Reader Unit := discard (manyWhile (fun c => isBlank c || c = '/') separator)

/-! ### Numbers -/

def isNumberCharacter (c : Char) : Bool := c.isAlphanum || c = '.' || c = '+' || c = '-'

def isPlain : List Char → Bool
  | '0' :: digit :: _ => !digit.isDigit
  | _ => true

def splitSign : List Char → Bool × List Char
  | '-' :: rest => (true, rest)
  | '+' :: rest => (false, rest)
  | rest => (false, rest)

def realValue (negative : Bool) (magnitude : Float) : Value :=
  .real (if negative then -magnitude else magnitude)

def wideSize : Nat := UInt64.size * UInt64.size

def fitsWide (negative : Bool) (magnitude : Nat) : Bool :=
  if negative then 2 * magnitude ≤ wideSize else magnitude < wideSize

/-- An integer with the given sign, or the nearest real number if 64 bits are not enough for it. An
integer that needs all of these bits for its magnitude is refused. -/
def integerValue? (negative : Bool) (magnitude : Nat) : Option Value :=
  let value : Int := if negative then -(magnitude : Int) else magnitude
  if fitsSigned value then some (.integer value)
  else if !negative && magnitude < UInt64.size then none
  else some (realValue negative (Decimal.nearest magnitude 0))

def hexadecimalValue? (negative : Bool) (digits : List Char) : Option Value := do
  let magnitude ← hexValue? digits
  if digits.isEmpty || !fitsWide negative magnitude then none
  else integerValue? negative magnitude

/-- The value of a written number: a hexadecimal integer, a decimal one, or a real number. -/
def numberValue? (text : List Char) : Option Value :=
  let (negative, magnitude) := splitSign text
  match magnitude with
  | '0' :: 'x' :: digits | '0' :: 'X' :: digits => hexadecimalValue? negative digits
  | magnitude =>
      match String.ofList magnitude with
      | "" => none
      | "Infinity" => some (realValue negative (1.0 / 0.0))
      | "NaN" => some (.real (0.0 / 0.0))
      | _ =>
          if !isPlain magnitude then none
          else if magnitude.all Char.isDigit then
            integerValue? negative (digitsValue magnitude)
          else (Decimal.readUnsigned? magnitude).map (realValue negative)

def number : Reader Value := do
  (numberValue? (← takeWhile isNumberCharacter)).elim failure pure

/-! ### Strings and keys -/

def shortEscape? (c : Char) : Option Char :=
  [('b', '\x08'), ('f', '\x0c'), ('n', '\n'), ('r', '\r'), ('t', '\t'), ('v', '\x0b')].lookup c

/-- What a backslash and the characters behind it stand for. A line end stands for nothing, a
character without a meaning of its own for itself. Zero is an escape only where no digit follows. -/
def escaped : Reader (List Char) := do
  let c ← next
  if c = 'u' then return [← codePoint]
  if c = 'x' then return [Char.ofNat (← hexDigits 2)]
  if c = '\r' then
    discard (skipIf (· = '\n'))
    return []
  if isLineEnd c then return []
  if c = '0' then
    if ← nextIs Char.isDigit then failure else return ['\x00']
  match shortEscape? c with
  | some c => return [c]
  | none => if c.isDigit then failure else return [c]

def stringPart : Reader (List Char) := do
  let c ← next
  if c = '\\' then escaped
  else if c = '\n' || c = '\r' then failure
  else return [c]

def string : Reader String := do
  let quote ← satisfying (fun c => c = '"' || c = '\'')
  let parts ← manyWhile (· ≠ quote) stringPart
  char quote
  return String.ofList parts.flatten

def startsKey (c : Char) : Bool := Letters.isLetter c || c = '$' || c = '_'

def continuesKey (c : Char) : Bool :=
  startsKey c || Letters.isExtender c || c = '\u200c' || c = '\u200d'

/-- A character of an unquoted key, which may be escaped by its code. -/
def keyCharacter : Reader Char := do
  let c ← next
  if c = '\\' then
    char 'u'
    codePoint
  else return c

def unquotedKey : Reader String := do
  let first ← keyCharacter
  let others ← manyWhile (fun c => continuesKey c || c = '\\') keyCharacter
  if startsKey first && others.all continuesKey then return String.ofList (first :: others)
  else failure

def key : Reader String := do
  if ← nextIs (fun c => c = '"' || c = '\'') then string else unquotedKey

/-! ### Values -/

def itemsUntil {α : Type} (closing : Char) (item : Reader α) : Reader (List α) := do
  blanks
  let items ← manyWhile (· ≠ closing) do
    let item ← item
    blanks
    unless ← nextIs (· = closing) do char ','
    blanks
    return item
  char closing
  return items

def scalar : Reader Value := do
  match ← peek? with
  | some '"' | some '\'' => return .text (← string)
  | some 't' => do chars "true"; return .bool true
  | some 'f' => do chars "false"; return .bool false
  | some 'n' => do chars "null"; return .null
  | _ => number

def member (item : Reader Value) : Reader (String × Value) := do
  let key ← key
  blanks
  char ':'
  blanks
  return (key, ← item)

def value : Nat → Reader Value
  | 0 => scalar
  | room + 1 => do
      if ← skipIf (· = '[') then return .list (← itemsUntil ']' (value room))
      else if ← skipIf (· = '\x7b') then
        return .tableOf (← itemsUntil '\x7d' (member (value room)))
      else scalar

def parse? (text : String) : Option Value :=
  let characters := text.toList
  runAll (do
    blanks
    let value ← value characters.length
    blanks
    return value) characters

end QueryShape.Settings.Json5
