import QueryShape.Settings.Yaml.Cursor
import QueryShape.Settings.Yaml.Token

/-!
# Layout of a YAML text

Which collections are open at a place of a text, and where a key may have started. Only the colon
behind a scalar shows that it is a key.
-/

namespace QueryShape.Settings.Yaml

/-- A place at which a key may have started. -/
structure Candidate where
  /-- The number of tokens before it. -/
  position : Nat
  index : Nat
  line : Nat
  column : Nat
  /-- Nothing but a key can stand there. -/
  isRequired : Bool

/-- A level of indentation. A level that opens no collection is for the lines of a value, which are
indented more than their key. -/
structure Level where
  outer : Int
  opensCollection : Bool

structure Layout where
  cursor : Cursor
  tokens : Array Token := #[]
  /-- A key can start here. -/
  allowsKey : Bool := true
  candidate? : Option Candidate := none
  /-- The candidates outside of each open bracket, from inside out. -/
  outerCandidates : List (Option Candidate) := []
  indentation : Int := -1
  levels : List Level := []
  /-- Behind what ends here a colon needs no blank after it. -/
  adjacentIndex : Nat := 0
  /-- A colon goes on with a mapping that has already been opened. -/
  inFlowMapping : Bool := false
  /-- The last colon has opened a pair without brackets. -/
  inPair : Bool := false

namespace Layout

def inFlow (layout : Layout) : Bool := !layout.outerCandidates.isEmpty

def column (layout : Layout) : Nat := layout.cursor.column

def push (layout : Layout) (token : Token) : Layout :=
  { layout with tokens := layout.tokens.push token }

def insert (layout : Layout) (position : Nat) (token : Token) : Layout :=
  { layout with tokens := layout.tokens.insertIdxIfInBounds position token }

/-! ### Candidates -/

/-- The key that may start here has to be one where an entry of the innermost block collection
starts. -/
def candidate (layout : Layout) : Candidate where
  position := layout.tokens.size
  index := layout.cursor.index
  line := layout.cursor.line
  column := layout.column
  isRequired := !layout.inFlow && layout.indentation = layout.column &&
    layout.levels.head?.any Level.opensCollection

def propose (layout : Layout) : Layout :=
  if layout.allowsKey then { layout with candidate? := some layout.candidate } else layout

def withdraw? (layout : Layout) : Option Layout :=
  if layout.candidate?.any Candidate.isRequired then none
  else some { layout with candidate? := none }

/-- Outside of brackets, a key ends in its line and has 1024 characters at most. -/
def isStale (layout : Layout) (candidate : Candidate) : Bool :=
  !layout.inFlow &&
    (candidate.line < layout.cursor.line || candidate.index + 1024 < layout.cursor.index)

def withdrawStale? (layout : Layout) : Option Layout :=
  if layout.candidate?.any layout.isStale then layout.withdraw? else some layout

/-! ### Indentation -/

def widen (layout : Layout) (column : Nat) : Layout :=
  match layout.levels with
  | level :: levels =>
      if layout.indentation ≤ column && !level.opensCollection then
        { layout with indentation := level.outer, levels }
      else layout
  | [] => layout

/-- Opens the block collection that starts in `column` unless it is open; its mark belongs where
`position` tokens are before it. -/
def openBlock (layout : Layout) (column position : Nat) (start : Token) : Layout :=
  if layout.inFlow then layout
  else
    let layout := layout.widen column
    if layout.indentation < column then
      { layout.insert position start with
        levels := ⟨layout.indentation, true⟩ :: layout.levels
        indentation := column }
    else layout

def openValue (layout : Layout) : Layout :=
  if !layout.inFlow && layout.levels.head?.any Level.opensCollection then
    { layout with
      levels := ⟨layout.indentation, false⟩ :: layout.levels
      indentation := layout.indentation + 1 }
  else layout

def levelsEnding (column indentation : Int) : List Level → Nat × Int × List Level
  | [] => (0, indentation, [])
  | level :: levels =>
      if indentation > column then
        let (count, left) := levelsEnding column level.outer levels
        (count + level.opensCollection.toNat, left)
      else (0, indentation, level :: levels)

def closeBlocks (layout : Layout) (column : Int) : Layout :=
  if layout.inFlow then layout
  else
    let (count, indentation, levels) := levelsEnding column layout.indentation layout.levels
    { layout with
      indentation, levels
      tokens := layout.tokens ++ Array.replicate count Token.blockEnd }

def collectionLevels (indentation : Int) : List Level → Int × List Level
  | [] => (indentation, [])
  | level :: levels =>
      if level.opensCollection then (indentation, level :: levels)
      else collectionLevels level.outer levels

def closeValue (layout : Layout) : Layout :=
  let (indentation, levels) := collectionLevels layout.indentation layout.levels
  { layout with indentation, levels }

/-! ### Brackets -/

/-- Whether a colon here opens a pair without brackets. -/
def opensPair (layout : Layout) : Bool := layout.inFlow && !layout.inFlowMapping

/-- Ends the pair without brackets that the last colon has opened. Only the last one is known: a
pair whose value is a collection with a colon or a comma inside is not ended behind that. -/
def endPair (layout : Layout) : Layout :=
  if layout.inPair then
    { layout.push .flowMappingEnd with inFlowMapping := false, inPair := false }
  else layout

def openBracket? (layout : Layout) : Option Layout :=
  if layout.outerCandidates.length ≥ 255 then none
  else
    some { layout with
      outerCandidates := layout.candidate? :: layout.outerCandidates
      candidate? := none }

def closeBracket (layout : Layout) : Layout :=
  match layout.outerCandidates with
  | [] => layout
  | candidate? :: outerCandidates => { layout with candidate?, outerCandidates }

end Layout

end QueryShape.Settings.Yaml
