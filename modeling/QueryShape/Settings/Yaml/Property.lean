import QueryShape.Digits
import QueryShape.Settings.Yaml.Cursor
import QueryShape.Settings.Yaml.Token

/-!
# Anchors, tags and directives

Names that nodes are given and referred to by, tags for what kind of value they are, and the lines
in front of a document that declare handles for tags.
-/

namespace QueryShape.Settings.Yaml

open Reader

/-! ### Names -/

def isAnchorCharacter (c : Char) : Bool :=
  !isBlank c && !isBreak c && !isFlowMark c && c ≠ '\uFEFF'

def anchorName : Reader String := do
  skipContent 1
  let name ← contentWhile isAnchorCharacter
  require !name.isEmpty
  return String.ofList name

/-! ### Tags -/

def isAddressCharacter (c : Char) : Bool :=
  c.isAlphanum || "-#;/?:@&=+$,_.!~*'()[]%".toList.contains c

def isTagCharacter (c : Char) : Bool := isAddressCharacter c && !isFlowMark c && c ≠ '!'

def escapedBytes? (byte : Nat) : Option Nat :=
  if byte < 0x80 then some 1
  else if byte < 0xc0 then none
  else if byte < 0xe0 then some 2
  else if byte < 0xf0 then some 3
  else if byte < 0xf8 then some 4
  else none

def escapedByte : Reader Nat := do
  match ← rest with
  | '%' :: high :: low :: _ =>
      skipContent 3
      hexValue? [high, low]
  | _ => failure

def escapedCharacter : Reader Char := do
  let first ← escapedByte
  let size ← escapedBytes? first
  let others ← (List.replicate (size - 1) ()).mapM fun _ => do
    let byte ← escapedByte
    require (0x80 ≤ byte && byte < 0xc0)
    return byte
  let code := others.foldl (fun code byte => 0x100 * code + byte) first
  if code.isValidChar then return Char.ofNat code else failure

def addressWhile (p : Char → Bool) : Reader (List Char) :=
  many do
    match ← rest with
    | c :: _ =>
        if !p c then return none
        else if c = '%' then return some (← escapedCharacter)
        else
          skipContent 1
          return some c
    | [] => return none

/-- A handle: an exclamation mark, and perhaps a name that a further one ends. -/
def tagHandle : Reader (List Char) := do
  require (← skipIf '!')
  let name ← contentWhile isNameCharacter
  let isClosed ← skipIf '!'
  return '!' :: name ++ (if isClosed then ['!'] else [])

def isClosedHandle (handle : List Char) : Bool := handle.length ≥ 2 && handle.getLast? = some '!'

def verbatimTag : Reader Token := do
  skipContent 2
  let address ← addressWhile isAddressCharacter
  require (← skipIf '>')
  return .tag "" (String.ofList address)

/-- A tag of a handle and a suffix. Without a closed handle, all behind the exclamation mark is the
suffix. -/
def shorthandTag : Reader Token := do
  let handle ← tagHandle
  let suffix ← addressWhile isTagCharacter
  if isClosedHandle handle then
    require !suffix.isEmpty
    return .tag (String.ofList handle) (String.ofList suffix)
  let suffix := handle.drop 1 ++ suffix
  return if suffix.isEmpty then .tag "" "!" else .tag "!" (String.ofList suffix)

/-- A tag, behind which there is a blank, a line end or a mark of the brackets around it. -/
def tag (inFlow : Bool) : Reader Token := do
  let token ← match ← rest with
    | '!' :: '<' :: _ => verbatimTag
    | _ => shorthandTag
  let text ← rest
  require (atGap text || (inFlow && startsWithFlowMark text))
  return token

/-! ### Directives -/

def versionNumber : Reader Unit := do
  let digits ← contentWhile Char.isDigit
  require (!digits.isEmpty && digits.length ≤ 9)

def versionDirective : Reader Token := do
  discard blanks
  versionNumber
  require (← skipIf '.')
  versionNumber
  return .version

def handleStart : Reader (List Char) := do
  if ← skipIf '!' then return '!' :: (← addressWhile isAddressCharacter)
  require ((← rest).head?.any isTagCharacter)
  addressWhile isAddressCharacter

def tagDirective : Reader Token := do
  discard blanks
  let handle ← tagHandle
  require (handle.length = 1 || isClosedHandle handle)
  discard blanks
  let start ← handleStart
  require (atGap (← rest))
  return .tagDirective (String.ofList handle) (String.ofList start)

def directive : Reader Token := do
  skipContent 1
  let name ← contentWhile isNameCharacter
  require (!name.isEmpty && atGap (← rest))
  let token ← match String.ofList name with
    | "YAML" => versionDirective
    | "TAG" => tagDirective
    | _ => do
        comment
        pure (.tagDirective "" "")
  discard blanksAndComment
  require (atLineEnd (← rest))
  discard lineBreak
  return token

end QueryShape.Settings.Yaml
