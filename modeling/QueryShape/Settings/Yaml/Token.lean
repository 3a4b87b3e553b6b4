/-!
# Tokens of YAML

Indentation has become marks where block collections start and end. A key mark stands before every
key, whether it is written or not.
-/

namespace QueryShape.Settings.Yaml

inductive Token where
  | version
  | tagDirective (handle start : String)
  | documentStart
  | documentEnd
  | blockSequenceStart
  | blockMappingStart
  | blockEnd
  | flowSequenceStart
  | flowSequenceEnd
  | flowMappingStart
  | flowMappingEnd
  | blockEntry
  | flowEntry
  | key
  | value
  | alias (name : String)
  | anchor (name : String)
  | tag (handle suffix : String)
  | scalar (isPlain : Bool) (content : String)
deriving DecidableEq, Repr

end QueryShape.Settings.Yaml
