import QueryShape.Digits
import QueryShape.Parser
import QueryShape.Settings.Value

/-!
# Configuration in JSON

Strict JSON, nested at most 127 deep. An integer is kept as one if it fits into 64 bits, with or
without a sign; other numbers are real, and so is minus zero.
-/

namespace QueryShape.Settings.Json

open QueryShape.Parser

abbrev Reader := Parser Char

def bracketRoom : Nat := 127

def isBlank (c : Char) : Bool := c = ' ' || c = '\n' || c = '\t' || c = '\r'

def blanks : Reader Unit := discard (takeWhile isBlank)

def char (c : Char) : Reader Unit := discard (satisfying (· = c))

def chars (text : String) : Reader Unit := text.toList.forM char

/-! ### Numbers -/

def greatest : Nat := UInt64.size - 1

/-- Digits read into a number of 64 bits: as many as fit, with the number of those left over. -/
def significant (start : Nat) : List Char → Nat × Nat
  | [] => (start, 0)
  | digit :: digits =>
      let longer := 10 * start + (digit.toNat - '0'.toNat)
      if longer ≤ greatest then significant longer digits else (start, digits.length + 1)

def powerOfTen (n : Nat) : Float := Float.ofScientific 1 false n

/-- A number of 64 bits scaled by a power of ten, which rounds once for the number and once for the
scale. A number that is too great is refused. -/
def scaled? (mantissa : Nat) (exponent : Int) : Option Float :=
  let start := Float.ofNat mantissa
  if exponent ≥ 0 then
    if mantissa = 0 then some start
    else if exponent > 308 then none
    else
      let number := start * powerOfTen exponent.toNat
      if number.isInf then none else some number
  else if exponent ≥ -308 then some (start / powerOfTen (-exponent).toNat)
  else if exponent ≥ -616 then some (start / powerOfTen 308 / powerOfTen (-exponent - 308).toNat)
  else some 0

def real? (whole fraction : List Char) (exponent : Int) : Option Float :=
  let (mantissa, omitted) := significant 0 whole
  let (mantissa, unread) := significant mantissa fraction
  scaled? mantissa (exponent + omitted - (fraction.length - unread : Nat))

def digits : Reader (List Char) := do
  let digits ← takeWhile Char.isDigit
  if digits.isEmpty then failure else return digits

def wholePart : Reader (List Char) := do
  if ← skipIf (· = '0') then
    if ← nextIs Char.isDigit then failure else return ['0']
  else digits

def exponentPart : Reader Int := do
  let negative ← skipIf (· = '-')
  unless negative do discard (skipIf (· = '+'))
  let exponent := digitsValue (← digits)
  return if negative then -(exponent : Int) else exponent

/-- Whether an integer fits into 64 bits, with or without a sign. -/
def fitsWord (value : Int) : Bool := fitsSigned value || (0 ≤ value && value ≤ greatest)

def number : Reader Value := do
  let negative ← skipIf (· = '-')
  let whole ← wholePart
  let hasPoint ← skipIf (· = '.')
  let fraction ← if hasPoint then digits else pure []
  let hasExponent ← skipIf (fun c => c = 'e' || c = 'E')
  let exponent ← if hasExponent then exponentPart else pure 0
  let value : Int := if negative then -(digitsValue whole : Int) else digitsValue whole
  if !hasPoint && !hasExponent && !(negative && value = 0) && fitsWord value then
    return .integer value
  let some number := real? whole fraction exponent | failure
  return .real (if negative then -number else number)

/-! ### Strings -/

def hexDigits (count : Nat) : Reader Nat := do
  let digits ← (List.replicate count ()).mapM fun _ => next
  (hexValue? digits).elim failure pure

def isHighSurrogate (code : Nat) : Bool := 0xd800 ≤ code && code < 0xdc00

def isLowSurrogate (code : Nat) : Bool := 0xdc00 ≤ code && code < 0xe000

/-- The character of an escaped code, of which two may make a pair. -/
def codePoint : Reader Char := do
  let code ← hexDigits 4
  if isLowSurrogate code then failure
  if isHighSurrogate code then
    chars "\\u"
    let second ← hexDigits 4
    if isLowSurrogate second then
      return Char.ofNat (0x10000 + (code - 0xd800) * 0x400 + (second - 0xdc00))
    else failure
  return Char.ofNat code

def shortEscape? (c : Char) : Option Char :=
  [('"', '"'), ('\\', '\\'), ('/', '/'), ('b', '\x08'), ('f', '\x0c'), ('n', '\n'), ('r', '\r'),
    ('t', '\t')].lookup c

def stringCharacter : Reader Char := do
  let c ← next
  if c = '\\' then
    let escape ← next
    if escape = 'u' then codePoint else (shortEscape? escape).elim failure pure
  else if c.toNat < 0x20 then failure
  else return c

def string : Reader String := do
  char '"'
  let text ← manyWhile (· ≠ '"') stringCharacter
  char '"'
  return String.ofList text

/-! ### Values -/

def itemsUntil {α : Type} (closing : Char) (item : Reader α) : Reader (List α) := do
  blanks
  if ← skipIf (· = closing) then return []
  let first ← item
  let rest ← manyWhile (· = ',') do
    char ','
    blanks
    item
  char closing
  return first :: rest

def scalar : Reader Value := do
  match ← peek? with
  | some '"' => return .text (← string)
  | some 't' => do chars "true"; return .bool true
  | some 'f' => do chars "false"; return .bool false
  | some 'n' => do chars "null"; return .null
  | _ => number

def withBlanks (reader : Reader Value) : Reader Value := do
  let value ← reader
  blanks
  return value

def member (item : Reader Value) : Reader (String × Value) := do
  let key ← string
  blanks
  char ':'
  blanks
  return (key, ← item)

def value : Nat → Reader Value
  | 0 => withBlanks scalar
  | room + 1 => withBlanks do
      if ← skipIf (· = '[') then return .list (← itemsUntil ']' (value room))
      else if ← skipIf (· = '\x7b') then
        return .tableOf (← itemsUntil '\x7d' (member (value room)))
      else scalar

def parse? (text : String) : Option Value :=
  runAll (do blanks; value bracketRoom) text.toList

end QueryShape.Settings.Json
