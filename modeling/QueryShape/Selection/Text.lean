import QueryShape.Selection

/-!
# The text of selections and operations

One line per field, branch and spread, indented by two blanks per level.
-/

namespace QueryShape

def indent (depth : Nat) : String := String.ofList (List.replicate (2 * depth) ' ')

def enumText (values : List String) : String :=
  "enum(" ++ String.intercalate " | " values ++ ")"

def OutputCore.text {ρ : Type} : OutputCore (Selection ρ) → String
  | .scalar name => name
  | .enum values => enumText values
  | .typename => "Typename"
  | .selection nested => nested.on

def Field.head {ρ : Type} (field : Field (Selection ρ)) : String :=
  field.key ++ ": " ++ Wrapper.textAround field.type.wrapping field.type.core.text

namespace Selection

variable {ρ : Type}

mutual

/-- The lines inside the braces of a selection; `spreadName` names what it spreads. -/
def bodyText (spreadName : ρ → String) (depth : Nat) : Selection ρ → String
  | ⟨_, _, fields, branches, spreads⟩ =>
      fieldsText spreadName depth fields ++ branchesText spreadName depth branches ++
        String.join (spreads.map fun spread => indent depth ++ "..." ++ spreadName spread ++ "\n")

def fieldsText (spreadName : ρ → String) (depth : Nat) : List (Field (Selection ρ)) → String
  | [] => ""
  | field :: rest =>
      indent depth ++ field.head ++
        (match field with
        | ⟨_, _, .selection nested⟩ =>
            " \x7b\n" ++ nested.bodyText spreadName (depth + 1) ++ indent depth ++ "\x7d\n"
        | ⟨_, _, .scalar _⟩ | ⟨_, _, .enum _⟩ | ⟨_, _, .typename⟩ => "\n") ++
        fieldsText spreadName depth rest

def branchesText (spreadName : ρ → String) (depth : Nat) : List (Selection ρ) → String
  | [] => ""
  | branch :: rest =>
      indent depth ++ "... on " ++ branch.on ++ " \x7b\n" ++
        branch.bodyText spreadName (depth + 1) ++ indent depth ++ "\x7d\n" ++
        branchesText spreadName depth rest

end

end Selection

mutual

def InputCore.text : InputCore → String
  | .scalar name => name
  | .enum values => enumText values
  | .object fields => "\x7b" ++ InputCore.fieldsText fields ++ "\x7d"

def InputCore.fieldsText : List (String × Wrapped InputCore) → String
  | [] => ""
  | [(key, ⟨wrapping, core⟩)] => key ++ ": " ++ Wrapper.textAround wrapping core.text
  | (key, ⟨wrapping, core⟩) :: rest =>
      key ++ ": " ++ Wrapper.textAround wrapping core.text ++ ", " ++ InputCore.fieldsText rest

end

def InputType.text (type : InputType) : String :=
  Wrapper.textAround type.wrapping type.core.text

namespace Operation

def varsText (vars : List (String × InputType)) : String :=
  match vars with
  | [] => ""
  | vars =>
      "(" ++ String.intercalate ", "
        (vars.map fun (name, type) => "$" ++ name ++ ": " ++ InputType.text type) ++ ")"

variable {ρ : Type}

def text (spreadName : ρ → String) (depth : Nat) (operation : Operation (Selection ρ)) : String :=
  indent depth ++ operation.kind.text ++ (operation.name?.map (" " ++ ·)).getD "" ++
    varsText operation.vars ++ " \x7b\n" ++
    operation.selection.bodyText spreadName (depth + 1) ++ indent depth ++ "\x7d\n"

end Operation
end QueryShape
