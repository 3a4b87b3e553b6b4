/-!
# Deterministic parsing

A parser reads the front of a list of tokens, and decides by the next token alone. Its only loop is
`manyWhile`, of which every round has to consume something.
-/

namespace QueryShape

/-- Reads the front of a list of `τ`; `none` is a text that is not of the expected form. -/
abbrev Parser (τ α : Type) := StateT (List τ) Option α

namespace Parser

variable {τ α β : Type}

def next : Parser τ τ
  | [] => none
  | token :: rest => some (token, rest)

def peek? : Parser τ (Option τ) := fun tokens => some (tokens.head?, tokens)

def skipIf (p : τ → Bool) : Parser τ Bool
  | [] => some (false, [])
  | token :: rest => some (if p token then (true, rest) else (false, token :: rest))

def satisfying (p : τ → Bool) : Parser τ τ := do
  let token ← next
  if p token then return token else failure

def nextIs (p : τ → Bool) : Parser τ Bool := do
  return (← peek?).any p

/-- Runs `item` for as long as the next token satisfies `starts`. A round that consumes nothing is
refused, which bounds the loop by the number of tokens. -/
def manyWhile (starts : τ → Bool) (item : Parser τ α) : Parser τ (List α) := loop
where
  loop (tokens : List τ) : Option (List α × List τ) :=
    match tokens with
    | [] => some ([], [])
    | token :: rest =>
        if starts token then
          match item (token :: rest) with
          | none => none
          | some (first, left) =>
              if _shorter : left.length < (token :: rest).length then
                match loop left with
                | none => none
                | some (others, left) => some (first :: others, left)
              else none
        else some ([], token :: rest)
  termination_by tokens.length
  decreasing_by exact _shorter

def takeWhile (p : τ → Bool) : Parser τ (List τ) := fun tokens =>
  some (tokens.takeWhile p, tokens.dropWhile p)

def runAll (parser : Parser τ α) (tokens : List τ) : Option α :=
  match parser tokens with
  | some (value, []) => some value
  | _ => none

end Parser
end QueryShape
