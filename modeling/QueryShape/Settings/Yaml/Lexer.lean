import QueryShape.Settings.Yaml.BlockScalar
import QueryShape.Settings.Yaml.Layout
import QueryShape.Settings.Yaml.PlainScalar
import QueryShape.Settings.Yaml.Property
import QueryShape.Settings.Yaml.QuotedScalar

/-!
# Cutting a YAML text into tokens

Each round consumes the blanks and comments up to the next token, ends the block collections that
are indented more than it, and reads the token by its first character.
-/

namespace QueryShape.Settings.Yaml

/-- Reads tokens from a place on, of which it keeps the layout. -/
abbrev Lexing := StateT Layout Option

namespace Lexing

def atCursor {α : Type} (reader : Reader α) : Lexing α := fun layout => do
  let (value, cursor) ← reader layout.cursor
  return (value, { layout with cursor })

def change (step : Layout → Option Layout) : Lexing Unit := fun layout => (step layout).map ((), ·)

def require (condition : Bool) : Lexing Unit := atCursor (Reader.require condition)

def push (token : Token) : Lexing Unit := modify (·.push token)

def allowKey (allowsKey : Bool) : Lexing Unit := modify ({ · with allowsKey })

def rest : Lexing (List Char) := atCursor Reader.rest

def many {α : Type} (step : Lexing (Option α)) : Lexing (List α) := do
  gather step ((← rest).length + 1)

/-! ### Blanks -/

def lineBreak : Lexing Bool := do
  let isBreak ← atCursor Reader.lineBreak
  if isBreak && !(← get).inFlow then allowKey true
  return isBreak

def comment : Lexing Bool := do
  if (← rest).head? = some '#' then
    atCursor Reader.comment
    return true
  else return false

/-- Consumes what separates two tokens. A tab can indent a line in a block only if the line holds
nothing. -/
def separation : Lexing Unit :=
  discard <| many do
    let layout ← get
    let isTabbed ← atCursor (Reader.indentation layout.indentation)
    let hasComment ← comment
    if isTabbed && layout.cursor.atLineStart && !layout.levels.isEmpty then
      require (atLineEnd (← rest))
    return if hasComment || (← lineBreak) then some () else none

def keySeparation : Lexing Unit := do
  require ((← rest).head?.any fun c => c = ' ' || isBreak c)
  discard <| many do
    atCursor (spaces none)
    let hasComment ← comment
    return if hasComment || (← lineBreak) then some () else none
  require ((← rest).head? ≠ some '\t')

/-! ### Marks of collections -/

def mark : Lexing (List Char) := atCursor do
  Reader.skipContent 1
  Reader.blanksAndComment

def flowStart (start : Token) : Lexing Unit := do
  modify fun layout => layout.propose.openValue
  change Layout.openBracket?
  allowKey true
  if start = .flowMappingStart then modify ({ · with inFlowMapping := true })
  discard mark
  push start

def flowEnd (ending : Token) : Lexing Unit := do
  change Layout.withdraw?
  modify Layout.closeBracket
  allowKey false
  modify Layout.endPair
  discard mark
  modify fun layout =>
    if layout.inFlow then { layout with adjacentIndex := layout.cursor.index } else layout
  push ending

def flowEntry : Lexing Unit := do
  change Layout.withdraw?
  allowKey true
  modify Layout.endPair
  discard mark
  push .flowEntry

/-- A dash, which opens its sequence. No tab can separate it from a further dash. -/
def blockEntry : Lexing Unit := do
  let layout ← get
  require (!layout.inFlow && layout.allowsKey)
  modify (·.openBlock layout.column layout.tokens.size .blockSequenceStart)
  let blanks ← mark
  let text ← rest
  match text with
  | '-' :: after => require !(blanks.contains '\t' && atGap after)
  | _ => pure ()
  if text.head?.any (fun c => isBreak c || isFlowMark c) then modify Layout.openValue
  change Layout.withdraw?
  allowKey true
  push .blockEntry

def keyMark : Lexing Unit := do
  let layout ← get
  if layout.inFlow then modify ({ · with inFlowMapping := true })
  else
    require layout.allowsKey
    modify (·.openBlock layout.column layout.tokens.size .blockMappingStart)
  change Layout.withdraw?
  allowKey !layout.inFlow
  atCursor (Reader.skipContent 1)
  keySeparation
  push .key

def colon : Lexing Unit := do
  atCursor (Reader.skipContent 1)
  if (← rest).head? = some '\t' then
    let blanks ← atCursor Reader.blanksAndComment
    require (blanks.contains ' ' || !(← rest).head?.any isNameCharacter)

/-- The colon behind the key that started at the candidate. The key opens its mapping; a pair
without brackets starts in the line of its colon. -/
def valueOfCandidate (isPair : Bool) (candidate : Candidate) (line : Nat) : Lexing Unit := do
  modify (·.insert candidate.position .key)
  if isPair then
    require (line ≤ candidate.line)
    modify (·.insert candidate.position .flowMappingStart)
  modify fun layout =>
    { (layout.openBlock candidate.column candidate.position .blockMappingStart).openValue with
      candidate? := none
      allowsKey := false }

def valueAlone (isPair : Bool) (column : Nat) : Lexing Unit := do
  if isPair then push .flowMappingStart
  let layout ← get
  require (layout.inFlow || layout.allowsKey)
  modify fun layout =>
    (layout.openBlock column layout.tokens.size .blockMappingStart).openValue
  allowKey !layout.inFlow

/-- A colon. In square brackets it opens a pair unless a mapping is open. -/
def valueMark : Lexing Unit := do
  let layout ← get
  set { layout with inPair := layout.opensPair }
  colon
  match layout.candidate? with
  | some candidate => valueOfCandidate layout.opensPair candidate layout.cursor.line
  | none => valueAlone layout.opensPair layout.column
  push .value

/-! ### Content -/

def content (reader : Reader Token) : Lexing Unit := do
  modify Layout.propose
  allowKey false
  push (← atCursor reader)

def plain : Lexing Unit := do
  modify fun layout => layout.propose.closeValue
  allowKey false
  let layout ← get
  let text ← atCursor (plainScalar layout.inFlow (layout.indentation + 1))
  if (← get).cursor.atLineStart then allowKey true
  push (.scalar true text)

def quoted (quote : Char) : Lexing Unit := do
  modify Layout.propose
  allowKey false
  let layout ← get
  let text ← atCursor (quotedScalar quote layout.inFlow layout.indentation)
  separation
  modify fun layout => { layout with adjacentIndex := layout.cursor.index }
  push (.scalar false text)

def block (isFolded : Bool) : Lexing Unit := do
  modify fun layout => layout.propose.closeValue
  allowKey true
  let layout ← get
  push (.scalar false (← atCursor (blockScalar isFolded layout.indentation)))

def betweenDocuments (reader : Reader Token) : Lexing Unit := do
  modify (·.closeBlocks (-1))
  change Layout.withdraw?
  allowKey false
  push (← atCursor reader)

def documentMark (mark : Token) : Reader Token := do
  Reader.skipContent 3
  if mark = .documentEnd then
    discard Reader.blanksAndComment
    Reader.require (atLineEnd (← Reader.rest))
  return mark

/-! ### Tokens -/

def isValueMark (layout : Layout) (after : List Char) : Bool :=
  atGap after ||
    (layout.inFlow && (startsWithFlowMark after || layout.cursor.index = layout.adjacentIndex))

def tokenAt (c : Char) (after : List Char) : Lexing Unit := do
  let layout ← get
  match c with
  | '[' => flowStart .flowSequenceStart
  | '\x7b' => flowStart .flowMappingStart
  | ']' => flowEnd .flowSequenceEnd
  | '\x7d' => flowEnd .flowMappingEnd
  | ',' => flowEntry
  | '-' => if atGap after then blockEntry else plain
  | '?' => if atGap after then keyMark else plain
  | ':' => if isValueMark layout after then valueMark else plain
  | '*' => content (Token.alias <$> anchorName)
  | '&' => content (Token.anchor <$> anchorName)
  | '!' => content (tag layout.inFlow)
  | '|' => if layout.inFlow then plain else block false
  | '>' => if layout.inFlow then plain else block true
  | '\'' | '"' => quoted c
  | '%' | '@' | '\x60' => failure
  | _ => plain

def token : Lexing (Option Unit) := do
  separation
  change Layout.withdrawStale?
  modify fun layout => layout.closeBlocks layout.column
  let layout ← get
  match layout.cursor.rest with
  | [] =>
      change Layout.withdraw?
      modify (·.closeBlocks (-1))
      return none
  | c :: after =>
      if layout.column = 0 && c = '%' then betweenDocuments directive
      else if layout.cursor.isAtDocumentMark then
        betweenDocuments (documentMark (if c = '-' then .documentStart else .documentEnd))
      else
        require (layout.indentation ≤ layout.column)
        tokenAt c after
      return some ()

end Lexing

def tokens? (text : List Char) : Option (List Token) := do
  let (_, layout) ← gather Lexing.token (text.length + 1) { cursor := { rest := text } }
  return layout.tokens.toList

end QueryShape.Settings.Yaml
