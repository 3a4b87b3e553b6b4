import QueryShape.Flattened
import QueryShape.Linked
import QueryShape.Signature

/-!
# From a document to its signatures

A document is resolved in a schema, linked, flattened and typed. Any of the steps but flattening
can refuse it.
-/

namespace QueryShape

def Resolved.text (depth : Nat) (resolved : Resolved) : String :=
  String.join (resolved.operations.map (Operation.text id depth)) ++
    String.join (resolved.fragments.entries.map fun (name, selection) =>
      indent depth ++ "fragment " ++ name ++ " on " ++ selection.on ++ " \x7b\n" ++
        selection.bodyText id (depth + 1) ++ indent depth ++ "\x7d\n")

def linkedText (depth : Nat) (operations : List (Operation LinkedSelection)) : String :=
  String.join (operations.map (Operation.text Empty.elim depth))

def signaturesText (signatures : List Signature) : String :=
  String.join (signatures.map (Signature.text 0))

def signatures (options : Options) (operations : List (Operation LinkedSelection)) :
    Typing (List Signature) :=
  operations.mapM (Operation.signature options)

/-- Resolves, links, flattens and types a document. -/
def Schema.signatures (schema : Schema) (options : Options) (document : Source.Document) :
    Typing (List Signature) := do
  let resolved ← schema.resolve options.maxDepth document
  let linked ← resolved.link options.maxDepth
  QueryShape.signatures options (linked.map Operation.flatten)

end QueryShape
