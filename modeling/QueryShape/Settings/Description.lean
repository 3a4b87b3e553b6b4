import QueryShape.Json
import QueryShape.Settings

/-!
# A description of the settings

The JSON schema of a configuration: every section and setting with its meaning, its type and its
default.
-/

namespace QueryShape.Settings.Description

def text (value : String) : Json := .string value

variable (build : Build)

def defaults : Settings := .initial build

def closedObject (properties : List (String × Json)) : List (String × Json) :=
  [("type", text "object"), ("properties", .object properties),
    ("additionalProperties", .bool false)]

def alsoFrom (variableName : String) : String :=
  "\n\nCan also be set via the `" ++ variableName ++ "` environment variable."

def filter : Json := .object [
  ("description", text ("The filter to apply to log messages, in `EnvFilter` syntax. " ++
    "Takes precedence over `level`." ++ alsoFrom "LOG_FILTER")),
  ("type", .strings ["string", "null"]),
  ("default", .null)]

def format : Json := .object [
  ("description", text ("The format of the log messages." ++ alsoFrom "LOG_FORMAT")),
  ("default", text (defaults build).log.format.name),
  ("oneOf", .array [
    .object [("type", text "string"), ("enum", .strings [LogFormat.json.name])],
    .object [
      ("description", text "Hierarchical, human readable output on stderr."),
      ("type", text "string"),
      ("const", text LogFormat.text.name)]])]

def level : Json := .object [
  ("description", text ("The level of logging to use." ++ alsoFrom "LOG_LEVEL")),
  ("type", text "string"),
  ("default", text (defaults build).log.level.name),
  ("enum", .strings (LogLevel.all.map LogLevel.name))]

def log : Json := .object <|
  ("description", text ("The logger configuration.\n\n" ++
    "Only warnings and errors are printed by default in release builds.")) ::
  closedObject [("filter", filter), ("format", format build), ("level", level build)] ++
  [("default", .object [
    ("filter", .null),
    ("format", text (defaults build).log.format.name),
    ("level", text (defaults build).log.level.name)])]

def exactTypename : Json := .object [
  ("description", text ("Type `__typename` as the type name literal (for example `\"Droid\"`) " ++
    "when the\nselection can only be a single object type, instead of `string`." ++
    alsoFrom "TYPEGEN_EXACT_TYPENAME")),
  ("type", text "boolean"),
  ("default", .bool (defaults build).transform.exactTypename)]

def maxDepth : Json := .object [
  ("description", text ("Deepest selection nesting accepted before the transformation fails." ++
    alsoFrom "TYPEGEN_MAX_DEPTH")),
  ("type", text "integer"),
  ("format", text "uint"),
  ("default", .ofNat (defaults build).transform.maxDepth),
  ("minimum", .ofNat 0)]

def transform : Json := .object <|
  ("description", text "Configuration of the schema and document to type transformation.") ::
  closedObject [("exact_typename", exactTypename build), ("max_depth", maxDepth build)] ++
  [("default", .object [
    ("exact_typename", .bool (defaults build).transform.exactTypename),
    ("max_depth", .ofNat (defaults build).transform.maxDepth)])]

def schema : Json := .object <|
  [("$schema", text "https://json-schema.org/draft/2020-12/schema"),
    ("title", text "TypegenConfig")] ++
  closedObject [("log", log build), ("transform", transform build)]

end QueryShape.Settings.Description
