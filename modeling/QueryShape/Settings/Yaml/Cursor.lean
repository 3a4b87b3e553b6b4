/-!
# Places in a YAML text

A cursor is a place in a text with what follows it. Columns are what indentation is measured in;
whether only blanks precede the cursor on its line decides what a tab may do there.
-/

namespace QueryShape.Settings.Yaml

/-! ### Characters -/

def isBlank (c : Char) : Bool := c = ' ' || c = '\t'

def isBreak (c : Char) : Bool := c = '\n' || c = '\r'

def isFlowMark (c : Char) : Bool := [',', '[', ']', '\x7b', '\x7d'].contains c

def isNameCharacter (c : Char) : Bool := c.isAlphanum || c = '_' || c = '-'

def atLineEnd (text : List Char) : Bool := text.head?.all isBreak

def atGap (text : List Char) : Bool := text.head?.all fun c => isBlank c || isBreak c

def startsWithFlowMark (text : List Char) : Bool := text.head?.any isFlowMark

/-! ### Cursors -/

structure Cursor where
  rest : List Char
  index : Nat := 0
  line : Nat := 0
  column : Nat := 0
  /-- Nothing but blanks precedes the cursor on its line. -/
  atLineStart : Bool := true

namespace Cursor

def overBlanks (cursor : Cursor) (count : Nat) : Cursor :=
  { cursor with
    rest := cursor.rest.drop count
    index := cursor.index + count
    column := cursor.column + count }

def overContent (cursor : Cursor) (count : Nat) : Cursor :=
  { cursor.overBlanks count with atLineStart := false }

def overBreak (cursor : Cursor) (size : Nat) : Cursor :=
  { rest := cursor.rest.drop size
    index := cursor.index + size
    line := cursor.line + 1
    column := 0
    atLineStart := true }

/-- Whether a line of three dashes or three points starts here, by which documents are divided. -/
def isAtDocumentMark (cursor : Cursor) : Bool :=
  cursor.column = 0 &&
    match cursor.rest with
    | '-' :: '-' :: '-' :: rest | '.' :: '.' :: '.' :: rest => atGap rest
    | _ => false

end Cursor

/-! ### Reading at a cursor -/

abbrev Reader := StateT Cursor Option

/-- Repeats a step until it gives nothing, at most `limit` times. -/
def gather {m : Type → Type} [Monad m] {α : Type} (step : m (Option α)) : Nat → m (List α)
  | 0 => return []
  | limit + 1 => do
      match ← step with
      | none => return []
      | some first => return first :: (← gather step limit)

namespace Reader

def rest : Reader (List Char) := do return (← get).rest

def many {α : Type} (step : Reader (Option α)) : Reader (List α) := do
  gather step ((← rest).length + 1)

def require (condition : Bool) : Reader Unit := if condition then return () else failure

def blanks : Reader (List Char) := do
  let blanks := (← rest).takeWhile isBlank
  modify (·.overBlanks blanks.length)
  return blanks

def contentWhile (p : Char → Bool) : Reader (List Char) := do
  let content := (← rest).takeWhile p
  if content.isEmpty then return []
  modify (·.overContent content.length)
  return content

def skipContent (count : Nat) : Reader Unit := modify (·.overContent count)

def skipIf (c : Char) : Reader Bool := do
  if (← rest).head? = some c then
    skipContent 1
    return true
  else return false

def lineBreak : Reader Bool := do
  match ← rest with
  | '\r' :: '\n' :: _ => modify (·.overBreak 2); return true
  | c :: _ =>
      if isBreak c then
        modify (·.overBreak 1)
        return true
      else return false
  | [] => return false

def comment : Reader Unit := discard (contentWhile (!isBreak ·))

/-- Consumes the blanks that come next and a comment behind them, and gives the blanks. A comment
cannot follow something else at once. -/
def blanksAndComment : Reader (List Char) := do
  let blanks ← blanks
  if (← rest).head? = some '#' then
    require !blanks.isEmpty
    comment
  return blanks

/-- Consumes the blanks at the start of a line and says whether there is a tab among them before
column `limit`, where it would be indentation. -/
def indentation (limit : Int) : Reader Bool := do
  let start := (← get).column
  let blanks ← blanks
  return (blanks.findIdx? (· = '\t')).any fun (position : Nat) => (start + position : Int) < limit

end Reader

/-! ### Folding -/

/-- The text of line ends between two parts of a scalar: one is a blank, of several all but the
first stay. -/
def foldedBreaks : Nat → List Char
  | 0 => []
  | 1 => [' ']
  | count + 1 => List.replicate count '\n'

def foldedGap (blanks : List Char) (breaks : Nat) : List Char :=
  if breaks = 0 then blanks else foldedBreaks breaks

end QueryShape.Settings.Yaml
