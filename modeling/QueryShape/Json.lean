/-!
# JSON values and their text

JSON values with the members of an object in order. The text has one member or element per line,
indented by two blanks per level.
-/

namespace QueryShape

inductive Json where
  | null
  | bool (value : Bool)
  /-- The number `mantissa / 10 ^ decimals`. -/
  | number (mantissa : Int) (decimals : Nat)
  | string (value : String)
  | array (elements : List Json)
  | object (members : List (String × Json))
deriving Repr

namespace Json

def hexDigit (n : Nat) : Char :=
  if n < 10 then Char.ofNat ('0'.toNat + n) else Char.ofNat ('a'.toNat + (n - 10))

def escape (c : Char) : List Char :=
  if c = '"' then ['\\', '"']
  else if c = '\\' then ['\\', '\\']
  else if c = '\x08' then ['\\', 'b']
  else if c = '\x0c' then ['\\', 'f']
  else if c = '\n' then ['\\', 'n']
  else if c = '\r' then ['\\', 'r']
  else if c = '\t' then ['\\', 't']
  else if c.toNat < 0x20 then
    ['\\', 'u', '0', '0', hexDigit (c.toNat / 16), hexDigit (c.toNat % 16)]
  else [c]

def quote (text : String) : String :=
  String.ofList ('"' :: text.toList.flatMap escape ++ ['"'])

def numberText (mantissa : Int) (decimals : Nat) : String :=
  let digits := mantissa.natAbs.repr.toList
  let digits := List.replicate (decimals + 1 - digits.length) '0' ++ digits
  let whole := digits.take (digits.length - decimals)
  let fraction := digits.drop (digits.length - decimals)
  (if mantissa < 0 then "-" else "") ++ String.ofList whole ++
    (if decimals = 0 then "" else "." ++ String.ofList fraction)

def newLine (depth : Nat) : String :=
  String.ofList ('\n' :: List.replicate (2 * depth) ' ')

def bracketed (opening closing : String) (depth : Nat) (lines : List String) : String :=
  if lines.isEmpty then opening ++ closing
  else
    opening ++ newLine (depth + 1) ++ String.intercalate ("," ++ newLine (depth + 1)) lines ++
      newLine depth ++ closing

mutual

def textAt (depth : Nat) : Json → String
  | .null => "null"
  | .bool value => if value then "true" else "false"
  | .number mantissa decimals => numberText mantissa decimals
  | .string value => quote value
  | .array elements => bracketed "[" "]" depth (elementTexts (depth + 1) elements)
  | .object members => bracketed "\x7b" "\x7d" depth (memberTexts (depth + 1) members)

def elementTexts (depth : Nat) : List Json → List String
  | [] => []
  | element :: rest => element.textAt depth :: elementTexts depth rest

def memberTexts (depth : Nat) : List (String × Json) → List String
  | [] => []
  | (key, value) :: rest => (quote key ++ ": " ++ value.textAt depth) :: memberTexts depth rest

end

def text (json : Json) : String := json.textAt 0

def ofNat (n : Nat) : Json := .number n 0

def strings (values : List String) : Json := .array (values.map .string)

end Json
end QueryShape
