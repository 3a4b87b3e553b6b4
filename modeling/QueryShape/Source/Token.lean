/-!
# Tokens and their places

A GraphQL text is a row of tokens, each at a line and a column counted from one. The value of a
number or of a string is not kept, since no type depends on it.
-/

namespace QueryShape

structure Position where
  line : Nat
  column : Nat
deriving DecidableEq, Repr

namespace Position

def start : Position := ⟨1, 1⟩

def nextLine (position : Position) : Position := ⟨position.line + 1, 1⟩

def right (position : Position) (columns : Nat) : Position :=
  ⟨position.line, position.column + columns⟩

/-- The place behind the characters of a token: each counts one column, a line feed starts a
line. -/
def after (position : Position) (characters : List Char) : Position :=
  characters.foldl (fun p c => if c = '\n' then p.nextLine else p.right 1) position

def text (position : Position) : String :=
  position.line.repr ++ ":" ++ position.column.repr

end Position

namespace Source

inductive Token where
  | punctuator (mark : Char)
  | ellipsis
  | name (text : String)
  | number
  | string
deriving DecidableEq, Repr

structure Lexeme where
  token : Token
  position : Position
deriving DecidableEq, Repr

end Source
end QueryShape
