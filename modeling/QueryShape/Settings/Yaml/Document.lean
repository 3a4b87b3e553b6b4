import QueryShape.Parser
import QueryShape.Settings.Yaml.Cursor
import QueryShape.Settings.Yaml.Node
import QueryShape.Settings.Yaml.Token

/-!
# Documents of YAML

The node that a row of tokens stands for. A node that is left out between the marks of a collection
is null.
-/

namespace QueryShape.Settings.Yaml

/-- The names that have been given to nodes, and the nodes that have been read to their end. A name
is given its number when its node begins. -/
structure Anchors where
  numbers : List (String × Nat) := []
  nodes : List (Nat × Node) := []

abbrev NodeParser := StateT Anchors (Parser Token)

/-- Reads a node, if `inBlock` also one of a block collection. A sequence that is the value of a key
need not be indented more than the key if `isValue`. -/
abbrev NodeReader := (inBlock isValue : Bool) → NodeParser Node

namespace NodeParser

open QueryShape.Parser

/-- Repeats a step until it gives nothing. A step that gives something has to consume something. -/
def many {α : Type} (step : NodeParser (Option α)) : NodeParser (List α) := do
  let tokens : List Token ← (get : Parser Token (List Token))
  gather step (tokens.length + 1)

def accept (token : Token) : NodeParser Bool := skipIf (τ := Token) (· = token)

def expect (token : Token) : NodeParser Unit := discard (satisfying (τ := Token) (· = token))

def isBefore (tokens : List Token) : NodeParser Bool := nextIs (τ := Token) tokens.contains

def nodeBefore (tokens : List Token) (node : NodeParser Node) : NodeParser Node := do
  if ← isBefore tokens then return .null else node

/-! ### Block collections -/

def blockItems (read : NodeReader) : NodeParser (List Node) :=
  many do
    if ← accept .blockEnd then return none
    expect .blockEntry
    return some (← nodeBefore [.blockEntry, .blockEnd] (read true false))

def itemsOfKey (read : NodeReader) : NodeParser (List Node) :=
  many do
    if !(← accept .blockEntry) then return none
    return some (← nodeBefore [.blockEntry, .key, .value, .blockEnd] (read true false))

def blockEntries (read : NodeReader) : NodeParser (List Node) := do
  let part := nodeBefore [.key, .value, .blockEnd] (read true true)
  let entries ← many do
    if ← accept .blockEnd then return none
    let key ← if ← accept .key then part else pure Node.null
    if ← accept .value then return some [key, ← part] else return some [key, .null]
  return entries.flatten

/-! ### Flow collections -/

def separated {α : Type} (closing : Token) (item : NodeParser α) : NodeParser (List α) := do
  if ← accept closing then return []
  let first ← item
  let others ← many do
    if ← accept closing then return none
    expect .flowEntry
    if ← accept closing then return none
    return some (← item)
  return first :: others

def pair (read : NodeReader) : NodeParser Node := do
  let key ← read false false
  let value ← if ← accept .value then
      nodeBefore [.flowEntry, .flowSequenceEnd] (read false false)
    else pure Node.null
  (Node.mapping? [key, value]).elim failure pure

def flowItems (read : NodeReader) : NodeParser (List Node) :=
  separated .flowSequenceEnd do
    if ← accept .key then pair read else read false false

def flowEntries (read : NodeReader) : NodeParser (List Node) := do
  let value : NodeParser Node := do
    if ← accept .value then nodeBefore [.flowEntry, .flowMappingEnd] (read false false)
    else return .null
  let entries ← separated .flowMappingEnd do
    if ← accept .key then
      let key ← nodeBefore [.value, .flowEntry, .flowMappingEnd] (read false false)
      return [key, ← value]
    else if ← isBefore [.value] then return [Node.null, ← value]
    else return [← read false false, .null]
  return entries.flatten

/-! ### Nodes -/

/-- The node that an alias stands for. A node that has not been read to its end is unreadable. -/
def aliased (name : String) : NodeParser Node := do
  let anchors ← get
  let some number := anchors.numbers.lookup name | failure
  return (anchors.nodes.lookup number).getD .unreadable

def anchored (name : String) : NodeParser Nat := do
  let anchors ← get
  let number := anchors.numbers.length
  set { anchors with numbers := (name, number) :: anchors.numbers }
  return number

def anchor? : NodeParser (Option Nat) := do
  match ← peek? (τ := Token) with
  | some (.anchor name) =>
      discard (next (τ := Token))
      return some (← anchored name)
  | _ => return none

def tag? (declared : List (String × String)) : NodeParser (Option Tag) := do
  match ← peek? (τ := Token) with
  | some (.tag handle name) =>
      discard (next (τ := Token))
      let some tag := Tag.ofHandle? declared handle name | failure
      return some tag
  | _ => return none

def properties (declared : List (String × String)) : NodeParser (Option Nat × Option Tag) := do
  match ← anchor? with
  | some number => return (some number, ← tag? declared)
  | none =>
      match ← tag? declared with
      | some tag => return (← anchor?, some tag)
      | none => return (none, none)

def mapping (nodes : List Node) : NodeParser Node := (Node.mapping? nodes).elim failure pure

/-- What a node consists of behind its anchor and tag; with one of these it may be nothing. -/
def content (read : NodeReader) (inBlock isValue hasProperty : Bool) (tag? : Option Tag) :
    NodeParser Node := do
  match ← peek? (τ := Token) with
  | some (.scalar isPlain text) =>
      discard (next (τ := Token))
      return .ofText isPlain tag? text
  | some token =>
      if token = .blockEntry && isValue then return .sequence (← itemsOfKey read)
      else if ← accept .flowSequenceStart then return .sequence (← flowItems read)
      else if ← accept .flowMappingStart then mapping (← flowEntries read)
      else if token = .blockSequenceStart && inBlock then
        expect .blockSequenceStart
        return .sequence (← blockItems read)
      else if token = .blockMappingStart && inBlock then
        expect .blockMappingStart
        mapping (← blockEntries read)
      else if hasProperty then return .ofText true tag? ""
      else failure
  | none => if hasProperty then return .ofText true tag? "" else failure

def node (declared : List (String × String)) : Nat → NodeReader
  | 0, _, _ => failure
  | room + 1, inBlock, isValue => do
      if let some (.alias name) ← peek? (τ := Token) then
        discard (next (τ := Token))
        return ← aliased name
      let (number?, tag?) ← properties declared
      let hasProperty := number?.isSome || tag?.isSome
      let node ← content (node declared room) inBlock isValue hasProperty tag?
      if let some number := number? then
        modify fun anchors => { anchors with nodes := (number, node) :: anchors.nodes }
      return node

end NodeParser

/-! ### Documents -/

namespace Document

open QueryShape.Parser

def isDirective : Token → Bool
  | .version | .tagDirective .. => true
  | _ => false

/-- What handles stand for after the directives of a document, of which the last one alone counts.
The version can be given once. -/
def declared? (directives : List Token) : Option (List (String × String)) :=
  if directives.count .version > 1 then none
  else
    match directives.getLast? with
    | some (.tagDirective handle start) => some [(handle, start)]
    | _ => some []

def content (declared : List (String × String)) : Parser Token Node := do
  let tokens : List Token ← get
  let isEmpty := tokens.head?.all fun token =>
    isDirective token || token = .documentStart || token = .documentEnd
  if isEmpty then return .null
  else return (← (NodeParser.node declared (tokens.length + 1) true false).run {}).1

def document : Parser Token Node := do
  if ← nextIs fun token => isDirective token || token = .documentStart then
    let directives ← takeWhile isDirective
    let some declared := declared? directives | failure
    discard (satisfying (· = Token.documentStart))
    content declared
  else content []

def only? : Parser Token (Option Node) := do
  let ends : Parser Token Unit := discard (takeWhile (· = Token.documentEnd))
  ends
  if (← peek?).isNone then return none
  let node ← document
  ends
  return some node

end Document

end QueryShape.Settings.Yaml
