import QueryShape.Files

/-!
# Programs

A program writes to its outputs and may fail on the way. What it wrote before it failed stays
written.
-/

namespace QueryShape

/-- What a program leaves behind when it ends. -/
structure Outcome where
  exitCode : Nat := 0
  stdout : String := ""
  stderr : String := ""
  written : Files := {}

abbrev Program (ε : Type) := ExceptT ε (StateM Outcome)

namespace Program

variable {ε ε' α : Type}

def print (text : String) : Program ε Unit :=
  modify fun outcome => { outcome with stdout := outcome.stdout ++ text }

def printLine (text : String) : Program ε Unit := print (text ++ "\n")

def complain (text : String) : Program ε Unit :=
  modify fun outcome => { outcome with stderr := outcome.stderr ++ text }

def check (cause : ε → ε') : Except ε α → Program ε' α
  | .ok result => return result
  | .error error => throw (cause error)

def orThrow (cause : ε) : Option α → Program ε α
  | some result => return result
  | none => throw cause

/-- Runs a program to its end. One that fails complains, and its exit code is one. -/
def leave (program : Program ε Unit) (message : ε → String) : Outcome :=
  match program.run.run {} with
  | (.ok (), outcome) => outcome
  | (.error error, outcome) =>
      { outcome with exitCode := 1, stderr := outcome.stderr ++ message error ++ "\n" }

end Program
end QueryShape
