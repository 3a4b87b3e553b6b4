import QueryShape.Parser
import QueryShape.Source.Lexer
import QueryShape.Wrapped

/-!
# What executable and type system documents share

Values, arguments and directives are checked for their form and then dropped, since no type depends
on them. The recursive rules recurse on `room`, the number of brackets that may still be opened.
-/

namespace QueryShape.Source

open QueryShape.Parser

abbrev Reader := Parser Lexeme

def bracketRoom : Nat := 50

def isToken (token : Token) (lexeme : Lexeme) : Bool := lexeme.token = token

def isPunctuator (mark : Char) : Lexeme → Bool := isToken (.punctuator mark)

def isWord (word : String) : Lexeme → Bool := isToken (.name word)

def punctuator (mark : Char) : Reader Unit := discard (satisfying (isPunctuator mark))

def word (word : String) : Reader Unit := discard (satisfying (isWord word))

def isName (lexeme : Lexeme) : Bool :=
  match lexeme.token with
  | .name _ => true
  | _ => false

def name : Reader String := do
  match (← next).token with
  | .name text => return text
  | _ => failure

def position : Reader Position := do
  match ← peek? with
  | some lexeme => return lexeme.position
  | none => failure

def itemsUntil {α : Type} (mark : Char) (item : Reader α) : Reader (List α) := do
  let items ← manyWhile (!isPunctuator mark ·) item
  punctuator mark
  return items

def someUntil {α : Type} (mark : Char) (item : Reader α) : Reader (List α) := do
  let first ← item
  return first :: (← itemsUntil mark item)

/-- Two or more items stand with `mark` between them. -/
def separatedBy {α : Type} (mark : Char) (item : Reader α) : Reader (List α) := do
  let first ← item
  let others ← manyWhile (isPunctuator mark) (do punctuator mark; item)
  return first :: others

def typeRef : Nat → Reader TypeRef
  | 0 => markNotNull do return { core := ← name }
  | room + 1 => markNotNull do
      if ← skipIf (isPunctuator '[') then
        let item ← typeRef room
        punctuator ']'
        return item.wrap .list
      else return { core := ← name }
where
  markNotNull (type : Reader TypeRef) : Reader TypeRef := do
    let type ← type
    if ← skipIf (isPunctuator '!') then return type.wrap .notNull else return type

def plainValue (allowsVariables : Bool) : Reader Unit := do
  match (← next).token with
  | .name _ | .number | .string => return
  | .punctuator '$' => if allowsVariables then discard name else failure
  | _ => failure

def value (allowsVariables : Bool) : Nat → Reader Unit
  | 0 => plainValue allowsVariables
  | room + 1 => do
      if ← skipIf (isPunctuator '[') then
        discard <| itemsUntil ']' (value allowsVariables room)
      else if ← skipIf (isPunctuator '\x7b') then
        discard <| itemsUntil '\x7d' do
          discard name
          punctuator ':'
          value allowsVariables room
      else plainValue allowsVariables

/-- Runs `inner` behind an opening mark, with the room that is then left. -/
def opened {α : Type} (mark : Char) (room : Nat) (inner : Nat → Reader α) : Reader α :=
  match room with
  | 0 => failure
  | room + 1 => do
      punctuator mark
      inner room

def ifOpened {α : Type} (mark : Char) (room : Nat) (inner : Nat → Reader (List α)) :
    Reader (List α) := do
  if ← nextIs (isPunctuator mark) then opened mark room inner else return []

def arguments (room : Nat) : Reader Unit :=
  discard <| ifOpened '(' room fun room => someUntil ')' do
    discard name
    punctuator ':'
    value true room

def directives (room : Nat) : Reader Bool := do
  let all ← manyWhile (isPunctuator '@') do
    punctuator '@'
    discard name
    arguments room
  return !all.isEmpty

def defaultValue (room : Nat) : Reader Unit := do
  if ← skipIf (isPunctuator '=') then value false room

end QueryShape.Source
