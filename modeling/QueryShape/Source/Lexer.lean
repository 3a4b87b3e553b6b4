import QueryShape.Digits
import QueryShape.Source.Token

/-!
# Cutting a text into tokens

Blanks, commas, byte order marks and comments separate tokens. A number reaches up to the next
separator or mark and is checked as a whole.
-/

namespace QueryShape.Source

def isNameStart (c : Char) : Bool := c.isAlpha || c = '_'

def isNameCharacter (c : Char) : Bool := c.isAlphanum || c = '_'

def isMark (c : Char) : Bool :=
  ['(', ')', '[', ']', '{', '}', '!', '$', ':', '=', '@', '|', '&'].contains c

def endsNumber (c : Char) : Bool :=
  isMark c || [' ', '\n', '\r', '\t', ',', '#'].contains c

/-! ### Numbers -/

def isWholeNumber : List Char → Bool
  | [] => false
  | ['0'] => true
  | digit :: digits => digit ≠ '0' && (digit :: digits).all Char.isDigit

def isInteger : List Char → Bool
  | '-' :: digits => isWholeNumber digits
  | digits => isWholeNumber digits

def isDigits (text : List Char) : Bool := !text.isEmpty && text.all Char.isDigit

def isExponent : List Char → Bool
  | [] => false
  | first :: digits =>
      if first = '+' || first = '-' then isDigits digits
      else '1' ≤ first && first ≤ '8' && digits.all Char.isDigit

def marksExponent (c : Char) : Bool := c = 'e' || c = 'E'

def isReal (text : List Char) : Bool :=
  let mantissa := text.takeWhile (!marksExponent ·)
  let exponentOk := match text.dropWhile (!marksExponent ·) with
    | [] => true
    | _ :: exponent => isExponent exponent
  let fractionOk := match mantissa.dropWhile (· ≠ '.') with
    | [] => true
    | _ :: fraction => isDigits fraction
  isInteger (mantissa.takeWhile (· ≠ '.')) && fractionOk && exponentOk

def isNumber (text : List Char) : Bool :=
  if text.any (fun c => c = '.' || marksExponent c) then isReal text
  else isInteger text && (readInteger? text).any fitsSigned

/-! ### Strings -/

/-- A code point written with four characters, of which the first may be a plus sign. -/
def isEscapedCodePoint (digits : List Char) : Bool :=
  let digits := match digits with
    | '+' :: rest => rest
    | _ => digits
  match hexValue? digits with
  | some value => value.isValidChar
  | none => false

/-- Each backslash introduces one of the known escapes. -/
def hasValidEscapes : List Char → Bool
  | [] => true
  | '\\' :: 'u' :: a :: b :: c :: d :: rest =>
      isEscapedCodePoint [a, b, c, d] && hasValidEscapes rest
  | '\\' :: escape :: rest =>
      ['"', '\\', '/', 'b', 'f', 'n', 'r', 't'].contains escape && hasValidEscapes rest
  | ['\\'] => false
  | _ :: rest => hasValidEscapes rest

/-- The number of characters up to the closing quote of a string, that quote included. A backslash
takes the next character along. -/
def stringSize? : List Char → Option Nat
  | [] => none
  | '"' :: _ => some 1
  | '\\' :: c :: rest => if c = '\n' then none else (stringSize? rest).map (· + 2)
  | c :: rest => if c = '\n' then none else (stringSize? rest).map (· + 1)

def blockStringSize? (previous : Char) : List Char → Option Nat
  | [] => none
  | '"' :: '"' :: '"' :: rest =>
      if previous = '\\' then (blockStringSize? '"' rest).map (· + 3) else some 3
  | c :: rest => (blockStringSize? c rest).map (· + 1)

/-! ### Tokens -/

/-- The token that starts with `c`, and how many of the characters behind `c` belong to it. -/
def scan (c : Char) (rest : List Char) : Option (Token × Nat) :=
  if isMark c then some (.punctuator c, 0)
  else if isNameStart c then
    let tail := rest.takeWhile isNameCharacter
    some (.name (String.ofList (c :: tail)), tail.length)
  else if c = '-' || c.isDigit then
    let tail := rest.takeWhile (!endsNumber ·)
    if isNumber (c :: tail) then some (.number, tail.length) else none
  else if c = '.' then
    match rest with
    | '.' :: '.' :: _ => some (.ellipsis, 2)
    | _ => none
  else if c = '"' then
    match rest with
    | '"' :: '"' :: body => (blockStringSize? '"' body).map fun size => (.string, size + 2)
    | _ =>
        match stringSize? rest with
        | some size => if hasValidEscapes (rest.take (size - 1)) then some (.string, size) else none
        | none => none
  else none

/-- The place behind a separating character, if `c` is one: a tab counts eight columns, a carriage
return and a byte order mark none. -/
def afterSeparator? (position : Position) (c : Char) : Option Position :=
  if c = ' ' || c = ',' then some (position.right 1)
  else if c = '\n' then some position.nextLine
  else if c = '\t' then some (position.right 8)
  else if c = '\r' || c = '\uFEFF' then some position
  else none

/-- What follows a comment: it ends with either character of a line end, and takes it along. -/
def afterComment (text : List Char) : List Char :=
  (text.dropWhile (fun c => c ≠ '\n' && c ≠ '\r')).tail

theorem length_afterComment_le (text : List Char) : (afterComment text).length ≤ text.length := by
  have := (List.dropWhile_suffix (l := text) fun c => c ≠ '\n' && c ≠ '\r').length_le
  simp only [afterComment, List.length_tail]
  omega

def lexFrom (position : Position) (text : List Char) : Option (List Lexeme) :=
  match text with
  | [] => some []
  | c :: rest =>
      match afterSeparator? position c with
      | some position => lexFrom position rest
      | none =>
          if c = '#' then lexFrom position.nextLine (afterComment rest)
          else
            match scan c rest with
            | none => none
            | some (token, size) =>
                match lexFrom (position.after (c :: rest.take size)) (rest.drop size) with
                | none => none
                | some lexemes => some (⟨token, position⟩ :: lexemes)
termination_by text.length
decreasing_by
  · simp
  · have := length_afterComment_le rest
    simp only [List.length_cons]
    omega
  · simp only [List.length_cons, List.length_drop]
    omega

def lex (text : String) : Option (List Lexeme) :=
  lexFrom .start text.toList

end QueryShape.Source
