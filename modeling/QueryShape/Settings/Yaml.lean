import QueryShape.Settings.Yaml.Document
import QueryShape.Settings.Yaml.Lexer

/-!
# Configuration in YAML

A text is cut into tokens, and its only document is read from these and taken for a configuration.
A text ends where its first null character is.
-/

namespace QueryShape.Settings.Yaml

/-- Reads a text that holds one document. Without a document it is an empty table. -/
def parse? (text : String) : Option Value := do
  let tokens ← tokens? (text.toList.takeWhile (· ≠ '\x00'))
  match ← Parser.runAll Document.only? tokens with
  | none => some (.table [])
  | some node => node.toValue?

end QueryShape.Settings.Yaml
