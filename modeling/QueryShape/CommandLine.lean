import QueryShape.DocumentTyping
import QueryShape.Program
import QueryShape.Settings.Description
import QueryShape.Settings.Load

/-!
# The command line

A command line names a stage of typing, a schema file and an operation file. They are checked in the
order of arguments, settings, schema, operation, command, and then the stage is printed.
-/

namespace QueryShape

inductive UsageError where
  | missingConfigPath
  | wrongArguments
deriving DecidableEq, Repr

namespace UsageError

def message : UsageError → String
  | .missingConfigPath => "Missing value for '--config'"
  | .wrongArguments =>
      "Usage: typegen-dev-cli <resolve|link|flatten|build|print> <schema_path> <operation_path> " ++
        "[--json] [--config <path>]"

end UsageError

/-! ### Arguments -/

inductive Argument where
  | json
  | config (path : String)
  | positional (text : String)
deriving DecidableEq, Repr

/-- Cuts a command line into its parts. The path of a configuration may be any text. -/
def Argument.cut : List String → Except UsageError (List Argument)
  | [] => return []
  | first :: rest =>
      if first = "--json" then do return .json :: (← cut rest)
      else if first = "--config" then
        match rest with
        | [] => throw .missingConfigPath
        | path :: rest => do return .config path :: (← cut rest)
      else do return .positional first :: (← cut rest)

structure Invocation where
  command : String
  schemaPath : String
  operationPath : String
  asJson : Bool
  configPath? : Option String
deriving DecidableEq, Repr

namespace Invocation

/-- A command line has three positional parts; of several configurations the last one counts. -/
def ofArguments (arguments : List Argument) : Except UsageError Invocation :=
  let positional := arguments.filterMap fun
    | .positional text => some text
    | _ => none
  let configs := arguments.filterMap fun
    | .config path => some path
    | _ => none
  match positional with
  | [command, schemaPath, operationPath] =>
      return {
        command, schemaPath, operationPath
        asJson := arguments.contains .json
        configPath? := configs.getLast? }
  | _ => throw .wrongArguments

def parse (arguments : List String) : Except UsageError Invocation := do
  ofArguments (← Argument.cut arguments)

end Invocation

/-! ### Commands -/

inductive CommandError where
  | usage (error : UsageError)
  | settings (error : SettingsError)
  | unreadSchema (path : String) (error : ReadError)
  | malformedSchema (words : String)
  | unreadOperation (path : String) (error : ReadError)
  | malformedOperation (words : String)
  | typing (error : TypingError)
  | unknownCommand (name : String)
deriving DecidableEq, Repr

/-- What the user is told. Of a malformed text, that is what its parser says. -/
def CommandError.message : CommandError → String
  | .usage error => error.message
  | .settings error => error.message
  | .unreadSchema path error =>
      "Unable to read schema file '" ++ path ++ "': " ++ error.message
  | .malformedSchema words => words
  | .unreadOperation path error =>
      "Unable to read operation file '" ++ path ++ "': " ++ error.message
  | .malformedOperation words => words
  | .typing error => error.message
  | .unknownCommand name =>
      "Unknown command '" ++ name ++ "'. Available commands: resolve, link, flatten, build, print"

inductive Command where
  | resolve
  | link
  | flatten
  | build
  | print
deriving DecidableEq, Repr

def Command.ofName? : String → Option Command
  | "resolve" => some .resolve
  | "link" => some .link
  | "flatten" => some .flatten
  | "build" => some .build
  | "print" => some .print
  | _ => none

/-! ### Running -/

/-- The steps at which something may be logged, with what they work on. -/
inductive LogEvent where
  | installed
  | indexing (schema : Schema)
  | running (command : String) (options : Options)
  | resolving (schema : Schema) (document : Source.Document)
  | linking (resolved : Resolved)
  | flattening (linked : List (Operation LinkedSelection))
  | building (flattened : List (Operation LinkedSelection))

/-- What the program takes from its libraries: the words of their errors, and what their logger
writes. -/
structure Libraries where
  settingsFault : Files → Settings.Environment → Option String → LoadFault → String :=
    fun _ _ _ _ => ""
  schemaFault : String → String := fun _ => ""
  operationFault : String → String := fun _ => ""
  logged : LogFormat → String → LogEvent → String := fun _ _ _ => ""

def Libraries.logLines (libraries : Libraries) (log : LogSettings) (event : LogEvent) : String :=
  libraries.logged log.format log.effectiveFilter event

open Program

namespace Stage

variable (log : LogEvent → Program CommandError Unit) (options : Options) (schema : Schema)
  (document : Source.Document)

def resolve : Program CommandError Resolved := do
  log (.resolving schema document)
  check .typing (schema.resolve options.maxDepth document)

def link : Program CommandError (List (Operation LinkedSelection)) := do
  let resolved ← resolve log options schema document
  log (.linking resolved)
  check .typing (resolved.link options.maxDepth)

def flatten : Program CommandError (List (Operation LinkedSelection)) := do
  let linked ← link log options schema document
  log (.flattening linked)
  return linked.map Operation.flatten

def build : Program CommandError (List Signature) := do
  let flattened ← flatten log options schema document
  log (.building flattened)
  check .typing (signatures options flattened)

end Stage

def printShapes (signature : Signature) : Program CommandError Unit := do
  printLine signature.result.text
  signature.variableLines.forM printLine

def Command.perform (command : Command) (asJson : Bool)
    (log : LogEvent → Program CommandError Unit) (options : Options) (schema : Schema)
    (document : Source.Document) : Program CommandError Unit := do
  match command with
  | .resolve => printLine ((← Stage.resolve log options schema document).text 0)
  | .link => printLine (linkedText 0 (← Stage.link log options schema document))
  | .flatten => printLine (linkedText 0 (← Stage.flatten log options schema document))
  | .build =>
      let signatures ← Stage.build log options schema document
      if asJson then printLine (Signature.documentJson signatures).text
      else Program.print (signaturesText signatures)
  | .print => (← Stage.build log options schema document).forM printShapes

namespace CommandLine

open Settings (Environment)

def input {α : Type} (files : Files) (parse? : String → Option α) (path : String)
    (unread : ReadError → CommandError) (malformed : String → CommandError) :
    Program CommandError α := do
  let text ← check unread (files.read path)
  orThrow (malformed text) (parse? text)

/-- What a command line does, from its arguments to what it prints. -/
def session (files : Files) (environment : Environment) (libraries : Libraries) (build : Build)
    (arguments : List String) : Program CommandError Unit := do
  let invocation ← check .usage (Invocation.parse arguments)
  let settings ← check .settings <|
    Settings.load files environment invocation.configPath? build
      (libraries.settingsFault files environment invocation.configPath?)
  let log (event : LogEvent) : Program CommandError Unit :=
    complain (libraries.logLines settings.log event)
  log .installed
  let schema ← input files Schema.parse? invocation.schemaPath
    (.unreadSchema invocation.schemaPath) (.malformedSchema <| libraries.schemaFault ·)
  log (.indexing schema)
  let document ← input files Source.Document.parse? invocation.operationPath
    (.unreadOperation invocation.operationPath) (.malformedOperation <| libraries.operationFault ·)
  log (.running invocation.command settings.transform)
  let command ← orThrow (.unknownCommand invocation.command) (Command.ofName? invocation.command)
  command.perform invocation.asJson log settings.transform schema document

def run (files : Files) (environment : Environment) (arguments : List String)
    (libraries : Libraries := {}) (build : Build := .debug) : Outcome :=
  (session files environment libraries build arguments).leave CommandError.message

def describeSettings (arguments : List String) (build : Build := .debug) : Outcome :=
  let text := (Settings.Description.schema build).text
  match arguments with
  | [] => { stdout := text ++ "\n" }
  | path :: _ =>
      { stdout := "JSON Schema written to " ++ path ++ "\n"
        written := Files.ofTexts [(path, text)] }

end CommandLine
end QueryShape
