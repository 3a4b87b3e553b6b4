import QueryShape.Settings.Yaml.Cursor

/-!
# Plain scalars

A plain scalar is a text without quotes. It ends where a comment, a colon before a blank, a mark of
the brackets around it, or a line with less indentation begins; its lines are folded.
-/

namespace QueryShape.Settings.Yaml

open Reader

/-- Whether a plain scalar goes on with the character `c` before `rest`. -/
def continuesPlain (inFlow : Bool) (c : Char) (rest : List Char) : Bool :=
  !isBlank c && !isBreak c &&
    (c ≠ ':' || !(atGap rest || (inFlow && startsWithFlowMark rest))) &&
    !(inFlow && isFlowMark c)

def plainWordSize (inFlow : Bool) : List Char → Nat
  | [] => 0
  | c :: rest => if continuesPlain inFlow c rest then plainWordSize inFlow rest + 1 else 0

/-- Consumes the characters of a plain scalar up to the next blank. A word in brackets cannot be a
dash alone before a mark. -/
def plainWord (inFlow : Bool) : Reader (List Char) := do
  let text ← rest
  match text with
  | '-' :: after => require !(inFlow && startsWithFlowMark after)
  | _ => pure ()
  let size := plainWordSize inFlow text
  if size > 0 then skipContent size
  return text.take size

/-- Consumes what separates two words, and gives its text. A tab cannot indent a line that holds
more than a comment. -/
def plainGap (least : Int) : Reader (List Char) := do
  let blanks ← blanks
  let breaks ← many do
    if !(← lineBreak) then return none
    if ← indentation least then
      if (← rest).head? = some '#' then comment
      require (atLineEnd (← rest))
    return some ()
  return foldedGap blanks breaks.length

def endsPlain (inFlow : Bool) (least : Int) (cursor : Cursor) : Bool :=
  (!inFlow && cursor.column < least) || cursor.isAtDocumentMark || cursor.rest.head? = some '#'

def plainScalar (inFlow : Bool) (least : Int) : Reader String := do
  require !(inFlow && (← get).column < least)
  let first ← plainWord inFlow
  let others ← many do
    let gap ← plainGap least
    if endsPlain inFlow least (← get) then return none
    let word ← plainWord inFlow
    return if word.isEmpty then none else some (gap ++ word)
  return String.ofList (first ++ others.flatten)

end QueryShape.Settings.Yaml
