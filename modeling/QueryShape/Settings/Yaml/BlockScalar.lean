import QueryShape.Settings.Yaml.Cursor

/-!
# Block scalars

A bar or an angle introduces the indented lines below as a text, unfolded or folded. A sign decides
about the line ends behind the last line, a digit gives the indentation.
-/

namespace QueryShape.Settings.Yaml

open Reader

/-- What becomes of the line ends behind the last line: all go, one stays, or all stay. -/
inductive Chomping where
  | strip
  | clip
  | keep
deriving DecidableEq, Repr

def lineEnds (count : Nat) : List Char := List.replicate count '\n'

/-! ### Header -/

def chomping? : Reader (Option Chomping) := do
  if ← skipIf '+' then return some .keep
  if ← skipIf '-' then return some .strip
  return none

/-- A digit for the indentation, which cannot be zero. -/
def increment? : Reader (Option Nat) := do
  match ← rest with
  | c :: _ =>
      if !c.isDigit then return none
      require (c ≠ '0')
      skipContent 1
      return some (c.toNat - '0'.toNat)
  | [] => return none

def blockHeader : Reader (Chomping × Option Nat) := do
  match ← chomping? with
  | some chomping => return (chomping, ← increment?)
  | none =>
      match ← increment? with
      | some increment => return ((← chomping?).getD .clip, some increment)
      | none => return (.clip, none)

/-! ### Lines -/

def spaces (limit? : Option Nat) : Reader Unit := do
  let cursor ← get
  let count := (cursor.rest.takeWhile (· = ' ')).length
  let count := match limit? with
    | some limit => min count (limit - cursor.column)
    | none => count
  set (cursor.overBlanks count)

/-- Consumes lines that hold nothing up to column `limit`, the indentation of the line behind them,
and gives the columns in which they end. -/
def emptyLines (limit? : Option Nat) : Reader (List Nat) :=
  many do
    spaces limit?
    let column := (← get).column
    return if ← lineBreak then some column else none

/-- The indentation of a block scalar that no digit gives: that of its first line, or of a longer
empty line before. -/
def detectedIndentation (least : Nat) : Reader (Nat × Nat) := do
  let columns ← emptyLines none
  return ((columns ++ [(← get).column]).foldl max least, columns.length)

structure BlockLine where
  text : List Char
  isEnded : Bool
  emptyBehind : Nat

namespace BlockLine

/-- A line with more indentation than the first one keeps the line ends around it. -/
def isSpaced (line : BlockLine) : Bool := line.text.head?.any isBlank

end BlockLine

def blockLine (column : Nat) : Reader (Option BlockLine) := do
  let cursor ← get
  if cursor.column ≠ column || cursor.rest.isEmpty then return none
  let text := cursor.rest.takeWhile (!isBreak ·)
  set (cursor.overBlanks text.length)
  if ← lineBreak then return some ⟨text, true, (← emptyLines (some column)).length⟩
  else return some ⟨text, false, 0⟩

def betweenLines (isFolded : Bool) (line next : BlockLine) : List Char :=
  if isFolded && line.isEnded && !line.isSpaced && !next.isSpaced then
    if line.emptyBehind = 0 then [' '] else lineEnds line.emptyBehind
  else lineEnds (line.emptyBehind + line.isEnded.toNat)

def blockText (isFolded : Bool) : List BlockLine → List Char
  | [] => []
  | [line] => line.text
  | line :: next :: lines =>
      line.text ++ betweenLines isFolded line next ++ blockText isFolded (next :: lines)

/-- The line ends behind the last line. A text that ends inside of a line, or where a further one
could start, has a line end there. -/
def chompedEnd (chomping : Chomping) (isEnded atFurtherLine : Bool) (emptyBehind : Nat) :
    List Char :=
  match chomping with
  | .strip => []
  | .clip => lineEnds (isEnded.toNat + atFurtherLine.toNat)
  | .keep => lineEnds (isEnded.toNat + atFurtherLine.toNat + emptyBehind)

def emptyBlockText (chomping : Chomping) (hasBreak : Bool) (emptyLines : Nat) : List Char :=
  match chomping with
  | .strip => []
  | .clip => lineEnds hasBreak.toNat
  | .keep => lineEnds (if emptyLines = 0 then hasBreak.toNat else emptyLines)

/-! ### Scalars -/

def blockBody (isFolded hasBreak : Bool) (outer : Int) (chomping : Chomping)
    (increment? : Option Nat) : Reader String := do
  require ((← rest).head? ≠ some '\t')
  let (column, emptyBefore) ← match increment? with
    | some increment =>
        let column := (max outer 0).toNat + increment
        pure (column, (← emptyLines (some column)).length)
    | none => detectedIndentation (outer + 1).toNat
  let cursor ← get
  if cursor.rest.isEmpty then
    return String.ofList (emptyBlockText chomping hasBreak emptyBefore)
  require !(cursor.column < column && outer < cursor.column)
  let lines ← many (blockLine column)
  let cursor ← get
  let atFurtherLine := cursor.rest.isEmpty && max column 1 ≤ cursor.column
  let (isEnded, emptyBehind) := match lines.getLast? with
    | some line => (line.isEnded, line.emptyBehind)
    | none => (false, 0)
  return String.ofList <| lineEnds (if lines.isEmpty then 0 else emptyBefore) ++
    blockText isFolded lines ++ chompedEnd chomping isEnded atFurtherLine
      (if lines.isEmpty then emptyBefore else emptyBehind)

def blockScalar (isFolded : Bool) (outer : Int) : Reader String := do
  skipContent 1
  let (chomping, increment?) ← blockHeader
  discard blanksAndComment
  require (atLineEnd (← rest))
  let hasBreak ← lineBreak
  blockBody isFolded hasBreak outer chomping increment?

end QueryShape.Settings.Yaml
