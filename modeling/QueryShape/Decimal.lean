import QueryShape.Digits

/-!
# Decimal numbers and binary ones

Reading a decimal number as the nearest binary one of 64 bits, and writing such a number with the
fewest digits from which it can be read again. All choices are made by exact arithmetic on natural
numbers.
-/

namespace QueryShape

namespace Decimal

/-! ### Reading -/

/-- The binary number nearest to `mantissa * 10 ^ exponent`. Where the decimal point stands decides
at once about numbers far outside the range. -/
def nearest (mantissa : Nat) (exponent : Int) : Float :=
  let magnitude := (mantissa.repr.length : Int) + exponent
  if mantissa = 0 || magnitude < -400 then 0
  else if magnitude > 400 then 1.0 / 0.0
  else Float.ofScientific mantissa (exponent < 0) exponent.natAbs

/-- An exponent with its mark, a sign or none, and at least one digit; nothing at all is zero. -/
def readExponent? : List Char → Option Int
  | [] => some 0
  | mark :: exponent => if mark = 'e' || mark = 'E' then readInteger? exponent else none

def readUnsigned? (text : List Char) : Option Float := do
  let whole := text.takeWhile Char.isDigit
  let rest := text.dropWhile Char.isDigit
  let (fraction, rest) := match rest with
    | '.' :: rest => (rest.takeWhile Char.isDigit, rest.dropWhile Char.isDigit)
    | rest => ([], rest)
  if whole.isEmpty && fraction.isEmpty then none
  let exponent ← readExponent? rest
  return nearest (digitsValue (whole ++ fraction)) (exponent - fraction.length)

def read? : List Char → Option Float
  | '-' :: text => (readUnsigned? text).map fun number => -number
  | '+' :: text => readUnsigned? text
  | text => readUnsigned? text

/-! ### Writing -/

/-- The finite value `mantissa * 2 ^ exponent`. -/
structure Binary where
  mantissa : Nat
  exponent : Int
  /-- The next lower value is half as far away as the next higher one. -/
  closerBelow : Bool

def Binary.ofBits (bits : UInt64) : Binary :=
  let scale := ((bits >>> 52) &&& 0x7ff).toNat
  let fraction := (bits &&& 0xfffffffffffff).toNat
  if scale = 0 then ⟨fraction, -1074, false⟩
  else ⟨0x10000000000000 + fraction, (scale : Int) - 1075, fraction = 0 && scale > 1⟩

/-- The value `count * 10 ^ place` in units of a quarter of `2 ^ exponent`, and those units, both
multiplied by the same number so that they are natural. -/
def inQuarters (value : Binary) (place : Int) : Nat × Nat :=
  (Nat.pow 10 place.toNat * Nat.pow 2 (2 - value.exponent).toNat,
    Nat.pow 2 (value.exponent - 2).toNat * Nat.pow 10 (-place).toNat)

/-- Whether `count * 10 ^ place` is nearer to the value than to its neighbours. Of a number halfway
between two values the one with the even mantissa is the nearest. -/
def Binary.isNearest (value : Binary) (count : Nat) (place : Int) : Bool :=
  let (unit, quarter) := inQuarters value place
  let low := (4 * value.mantissa - (if value.closerBelow then 1 else 2)) * quarter
  let high := (4 * value.mantissa + 2) * quarter
  let even := value.mantissa % 2 = 0
  (low < count * unit || (even && low = count * unit)) &&
    (count * unit < high || (even && count * unit = high))

/-- The multiple of `10 ^ place` beside the value that reads as it, the closer one of two and the
greater one where both are as close. -/
def Binary.atPlace? (value : Binary) (place : Int) : Option (Nat × Int) :=
  let (unit, quarter) := inQuarters value place
  let exact := 4 * value.mantissa * quarter
  let below := exact / unit
  let above := below + 1
  match value.isNearest below place, value.isNearest above place with
  | true, true =>
      some (if exact - below * unit < above * unit - exact then below else above, place)
  | true, false => some (below, place)
  | false, true => some (above, place)
  | false, false => none

def Binary.firstPlace (value : Binary) : Int :=
  let whole := value.mantissa * Nat.pow 2 value.exponent.toNat / Nat.pow 2 (-value.exponent).toNat
  if whole > 0 then (whole.repr.length : Int) - 1
  else
    match (List.range 330).find? fun n =>
        value.mantissa * Nat.pow 10 n ≥ Nat.pow 2 (-value.exponent).toNat with
    | some n => -(n : Int)
    | none => 0

/-- The fewest digits that read as a positive value, with the place of the last one. Seventeen
digits are always enough. -/
def Binary.shortest (value : Binary) : Nat × Int :=
  ((List.range 17).findSome? fun (n : Nat) =>
    value.atPlace? (value.firstPlace - (n : Int))).getD (0, 0)

/-- Digits with the last one at `place`, written with zeros and a point where needed but without an
exponent. -/
def positional (count : Nat) (place : Int) : String :=
  let digits := count.repr.toList
  if place ≥ 0 then String.ofList (digits ++ List.replicate place.toNat '0')
  else
    let decimals := (-place).toNat
    let digits := List.replicate (decimals + 1 - digits.length) '0' ++ digits
    let whole := digits.take (digits.length - decimals)
    let fraction := (digits.drop (digits.length - decimals)).reverse.dropWhile (· = '0')
    String.ofList (whole ++ (if fraction.isEmpty then [] else '.' :: fraction.reverse))

def text (number : Float) : String :=
  if number.isNaN then "NaN"
  else
    let bits := number.toBits
    let sign := if bits >>> 63 = 1 then "-" else ""
    if number.isInf then sign ++ "inf"
    else
      let value := Binary.ofBits bits
      if value.mantissa = 0 then sign ++ "0"
      else
        let (count, place) := value.shortest
        sign ++ positional count place

end Decimal
end QueryShape
