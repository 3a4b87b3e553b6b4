import QueryShape.Digits
import QueryShape.Settings.Yaml.Cursor

/-!
# Quoted scalars

In single quotes a quote is written twice and all else once; in double quotes a backslash escapes.
Lines are folded, and their indentation has to be that of the block around them.
-/

namespace QueryShape.Settings.Yaml

open Reader

/-! ### Escapes -/

def shortEscape? (c : Char) : Option Char :=
  [('0', '\x00'), ('a', '\x07'), ('b', '\x08'), ('t', '\t'), ('\t', '\t'), ('n', '\n'),
    ('v', '\x0b'), ('f', '\x0c'), ('r', '\r'), ('e', '\x1b'), (' ', ' '), ('"', '"'), ('/', '/'),
    ('\\', '\\'), ('N', '\u0085'), ('_', '\u00a0'), ('L', '\u2028'), ('P', '\u2029')].lookup c

def codeSize? (c : Char) : Option Nat := [('x', 2), ('u', 4), ('U', 8)].lookup c

def codePoint? (size : Nat) (digits : List Char) : Option Char := do
  let code ← hexValue? digits
  if digits.length = size && code.isValidChar then some (Char.ofNat code) else none

/-- Consumes a backslash and what it introduces: the character `c` or a code behind it. -/
def escape (c : Char) : Reader Char := do
  match codeSize? c with
  | none =>
      skipContent 2
      shortEscape? c
  | some size =>
      let digits := ((← rest).drop 2).take size
      skipContent (2 + size)
      codePoint? size digits

/-! ### Folding -/

/-- Consumes the line ends that come next with the indentation behind them, in which there cannot be
a tab, and gives their number. What follows cannot be indented less or divide documents. -/
def quotedBreaks (least : Int) : Reader Nat := do
  let breaks ← many do
    if !(← lineBreak) then return none
    require !(← indentation least)
    return some ()
  let cursor ← get
  require !(cursor.isAtDocumentMark || cursor.column < least)
  return breaks.length

def quotedGap (least : Int) : Reader (List Char) := do
  let blanks ← blanks
  return foldedGap blanks (← quotedBreaks least)

/-- Consumes a backslash at the end of a line, which joins the next line without a blank. A quote
that closes the scalar at once needs no indentation. -/
def joinedLines (least : Int) : Reader (List Char) := do
  skipContent 1
  discard lineBreak
  if (← rest).head? = some '"' then return []
  require !(← indentation least)
  return List.replicate (← quotedBreaks least) '\n'

/-! ### Scalars -/

def isPlainInQuotes (quote c : Char) : Bool :=
  c ≠ quote && !isBlank c && !isBreak c && (quote = '\'' || c ≠ '\\')

def quotedPart (quote : Char) (least : Int) : Reader (Option (List Char)) := do
  match ← rest with
  | '\'' :: '\'' :: _ =>
      if quote = '\'' then
        skipContent 2
        return some ['\'']
      else return some (← contentWhile (isPlainInQuotes quote))
  | '\\' :: c :: _ =>
      if quote = '\'' then return some (← contentWhile (isPlainInQuotes quote))
      else if isBreak c then return some (← joinedLines least)
      else return some [← escape c]
  | c :: _ =>
      if c = quote then return none
      else if isBlank c || isBreak c then return some (← quotedGap least)
      else return some (← contentWhile (isPlainInQuotes quote))
  | [] => failure

/-- Whether a scalar in quotes that starts in a line can end before a text: at the end of a line, at
a mark of the brackets around it, or before the colon of a key. -/
def canFollowQuotes (inFlow sameLine : Bool) (text : List Char) : Bool :=
  atLineEnd text ||
    match text with
    | ':' :: _ => inFlow || sameLine
    | c :: _ => inFlow && (c = ',' || c = '\x7d' || c = ']')
    | [] => true

def quotedScalar (quote : Char) (inFlow : Bool) (least : Int) : Reader String := do
  let line := (← get).line
  skipContent 1
  let parts ← many (quotedPart quote least)
  require (← skipIf quote)
  discard blanksAndComment
  require (canFollowQuotes inFlow (line = (← get).line) (← rest))
  return String.ofList parts.flatten

end QueryShape.Settings.Yaml
