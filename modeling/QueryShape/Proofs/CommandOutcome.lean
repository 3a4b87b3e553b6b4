import QueryShape.CommandLine
import QueryShape.Proofs.Arguments
import QueryShape.Proofs.HeightCap
import QueryShape.Proofs.Loading
import QueryShape.Proofs.Programs

/-!
# What a command line leaves behind

A command line prints the whole of what is asked for, or just says which check failed first. After
linking no check is left that could fail.
-/

namespace QueryShape

open Outcome

/-! ### What is said -/

inductive ReadError.Says : ReadError → String → Prop where
  | missing : Says .missing "No such file or directory (os error 2)"
  | denied : Says .denied "Permission denied (os error 13)"
  | notADirectory : Says .notADirectory "Not a directory (os error 20)"
  | isADirectory : Says .isADirectory "Is a directory (os error 21)"
  | nameTooLong : Says .nameTooLong "File name too long (os error 36)"
  | notText : Says .notText "stream did not contain valid UTF-8"
  | other (words : String) : Says (.other words) words

theorem ReadError.says_iff {error : ReadError} {words : String} :
    error.Says words ↔ error.message = words := by
  constructor
  · intro h
    cases h <;> rfl
  · rintro rfl
    cases error <;> constructor

inductive TypingError.Says : TypingError → String → Prop where
  | unknownType (type : String) (position : Position) : Says (.unknownType type position)
      ("Could not resolve type '" ++ type ++ "' at " ++ position.text)
  | noRootType (kind : OperationKind) : Says (.noRootType kind)
      ("Schema has no root type for " ++ kind.text ++ " operations")
  | unknownField (field type : String) (position : Position) :
      Says (.unknownField field type position)
        ("Could not resolve field '" ++ field ++ "' on type '" ++ type ++ "' at " ++ position.text)
  | notComposite (type : String) (position : Position) : Says (.notComposite type position)
      ("Type '" ++ type ++ "' used at " ++ position.text ++ " is not a composite type")
  | notInput (type : String) (position : Position) : Says (.notInput type position)
      ("Type '" ++ type ++ "' used at " ++ position.text ++ " is not an input type")
  | notOutput (type : String) (position : Position) : Says (.notOutput type position)
      ("Type '" ++ type ++ "' used at " ++ position.text ++ " is not an output type")
  | missingSelection (field type : String) (position : Position) :
      Says (.missingSelection field type position)
        ("Field '" ++ field ++ "' of composite type '" ++ type ++ "' at " ++ position.text ++
          " has no selection set")
  | unknownFragment (fragment : String) : Says (.unknownFragment fragment)
      ("Could not resolve fragment with name '" ++ fragment ++ "'")
  | cyclicFragments (fragments : List String) : Says (.cyclicFragments fragments)
      ("Fragments spread each other in a cycle: " ++ String.intercalate ", " fragments)
  | recursiveInput (type : String) : Says (.recursiveInput type)
      ("Input type '" ++ type ++ "' references itself")
  | tooDeep (maxDepth : Nat) : Says (.tooDeep maxDepth)
      ("Selection nesting exceeds the maximum depth of " ++ maxDepth.repr)
  | scheduledTwice (fragment : String) : Says (.unlinkedFragment (.scheduledTwice fragment))
      ("Internal Error: fragment '" ++ fragment ++ "' was scheduled twice")
  | spreadEarly (fragment : String) : Says (.unlinkedFragment (.spreadEarly fragment))
      ("Internal Error: fragment '" ++ fragment ++ "' is spread before it was linked")

theorem TypingError.says_iff {error : TypingError} {words : String} :
    error.Says words ↔ error.message = words := by
  constructor
  · intro h
    cases h <;> rfl
  · rintro rfl
    cases error with
    | unlinkedFragment cause => cases cause <;> constructor
    | _ => constructor

/-! ### Stages -/

namespace Command

def name : Command → String
  | .resolve => "resolve"
  | .link => "link"
  | .flatten => "flatten"
  | .build => "build"
  | .print => "print"

theorem ofName?_eq_some_iff {text : String} {command : Command} :
    ofName? text = some command ↔ text = command.name := by
  constructor
  · intro h
    unfold ofName? at h
    split at h <;> cases h <;> rfl
  · rintro rfl
    cases command <;> rfl

theorem name_ne_json (command : Command) : command.name ≠ "--json" := by cases command <;> decide

theorem name_ne_config (command : Command) : command.name ≠ "--config" := by
  cases command <;> decide

def shapeLines (signature : Signature) : String :=
  String.join ((signature.result.text :: signature.variableLines).map (· ++ "\n"))

section

variable (options : Options) (schema : Schema) (document : Source.Document)

inductive Links (linked : List (Operation LinkedSelection)) : Prop where
  | intro {resolved : Resolved} (hr : schema.resolve options.maxDepth document = .ok resolved)
      (hl : resolved.link options.maxDepth = .ok linked)

/-- What a command prints about a document. -/
inductive Prints : Command → Bool → String → Prop where
  | resolve {resolved : Resolved} (asJson : Bool)
      (h : schema.resolve options.maxDepth document = .ok resolved) :
      Prints .resolve asJson (resolved.text 0 ++ "\n")
  | link {linked : List (Operation LinkedSelection)} (asJson : Bool)
      (h : Links options schema document linked) :
      Prints .link asJson (linkedText 0 linked ++ "\n")
  | flatten {linked : List (Operation LinkedSelection)} (asJson : Bool)
      (h : Links options schema document linked) :
      Prints .flatten asJson (linkedText 0 (linked.map Operation.flatten) ++ "\n")
  | build {linked : List (Operation LinkedSelection)} {result : List Signature}
      (h : Links options schema document linked)
      (hs : signatures options (linked.map Operation.flatten) = .ok result) :
      Prints .build false (signaturesText result)
  | buildJson {linked : List (Operation LinkedSelection)} {result : List Signature}
      (h : Links options schema document linked)
      (hs : signatures options (linked.map Operation.flatten) = .ok result) :
      Prints .build true ((Signature.documentJson result).text ++ "\n")
  | print {linked : List (Operation LinkedSelection)} {result : List Signature} (asJson : Bool)
      (h : Links options schema document linked)
      (hs : signatures options (linked.map Operation.flatten) = .ok result) :
      Prints .print asJson (String.join (result.map shapeLines))

/-- Why the stages up to a command refuse a document: no stage after linking does. -/
inductive Refuses (command : Command) (error : TypingError) : Prop where
  | resolving (h : schema.resolve options.maxDepth document = .error error)
  | linking {resolved : Resolved} (hlate : command ≠ .resolve)
      (hr : schema.resolve options.maxDepth document = .ok resolved)
      (h : resolved.link options.maxDepth = .error error)

end

variable {command : Command} {asJson : Bool} {options : Options} {schema : Schema}
  {document : Source.Document} {log : LogEvent → Program CommandError Unit}

theorem exists_signatures_flatten {resolved : Resolved} {linked : List (Operation LinkedSelection)}
    (h : resolved.link options.maxDepth = .ok linked) :
    ∃ result, signatures options (linked.map Operation.flatten) = .ok result := by
  have hheight := height_iterate_flatten_le (Resolved.height_le_of_link h) 1
  exact exists_mapM_eq_ok fun operation ho => Operation.exists_signature (hheight operation ho)

theorem prints_or_refuses (command : Command) (asJson : Bool) (options : Options)
    (schema : Schema) (document : Source.Document) :
    (∃ text, Prints options schema document command asJson text) ∨
      ∃ error, Refuses options schema document command error := by
  cases hr : schema.resolve options.maxDepth document with
  | error error => exact .inr ⟨error, .resolving hr⟩
  | ok resolved =>
      by_cases hc : command = .resolve
      · subst hc
        exact .inl ⟨_, .resolve asJson hr⟩
      · cases hl : resolved.link options.maxDepth with
        | error error => exact .inr ⟨error, .linking hc hr hl⟩
        | ok linked =>
            left
            have hlinks : Links options schema document linked := ⟨hr, hl⟩
            obtain ⟨result, hs⟩ := exists_signatures_flatten hl
            cases command with
            | resolve => exact absurd rfl hc
            | link => exact ⟨_, .link asJson hlinks⟩
            | flatten => exact ⟨_, .flatten asJson hlinks⟩
            | print => exact ⟨_, .print asJson hlinks hs⟩
            | build =>
                cases asJson with
                | false => exact ⟨_, .build hlinks hs⟩
                | true => exact ⟨_, .buildJson hlinks hs⟩

theorem printShapes_eq (signature : Signature) :
    printShapes signature = Program.print (shapeLines signature) := by
  have hlines := Program.forM_print (ε := CommandError) (f := Program.printLine) (g := (· ++ "\n"))
    (fun _ => rfl) signature.variableLines
  rw [printShapes, hlines, Program.printLine, Program.print_bind_print, shapeLines, List.map_cons,
    String.join_cons]

theorem stage_link_of_links {linked : List (Operation LinkedSelection)}
    (hlog : ∀ event, log event = pure ()) (h : Links options schema document linked) :
    Stage.link log options schema document = pure linked := by
  obtain ⟨hr, hl⟩ := h
  simp [Stage.link, Stage.resolve, hlog, hr, hl]

theorem perform_of_prints {text : String} (hlog : ∀ event, log event = pure ())
    (h : Prints options schema document command asJson text) :
    command.perform asJson log options schema document = Program.print text := by
  cases h with
  | resolve asJson h => simp [perform, Stage.resolve, hlog, h, Program.printLine]
  | link asJson h => simp [perform, stage_link_of_links hlog h, Program.printLine]
  | flatten asJson h =>
      simp [perform, Stage.flatten, stage_link_of_links hlog h, hlog, Program.printLine]
  | build h hs => simp [perform, Stage.build, Stage.flatten, stage_link_of_links hlog h, hlog, hs]
  | buildJson h hs =>
      simp [perform, Stage.build, Stage.flatten, stage_link_of_links hlog h, hlog, hs,
        Program.printLine]
  | print asJson h hs =>
      simp [perform, Stage.build, Stage.flatten, stage_link_of_links hlog h, hlog, hs,
        Program.forM_print printShapes_eq]

theorem perform_of_refuses {error : TypingError} (hlog : ∀ event, log event = pure ())
    (h : Refuses options schema document command error) :
    command.perform asJson log options schema document = throw (.typing error) := by
  cases h with
  | resolving h =>
      cases command <;>
        simp [perform, Stage.build, Stage.flatten, Stage.link, Stage.resolve, hlog, h]
  | linking hlate hr h =>
      cases command with
      | resolve => exact absurd rfl hlate
      | link | flatten | build | print =>
          simp [perform, Stage.build, Stage.flatten, Stage.link, Stage.resolve, hlog, hr, h]

end Command

/-! ### Command lines -/

namespace CommandLine

open Invocation (OnlyFlags parse_command)
open Settings (Environment)

def Invokes (arguments : List String) (invocation : Invocation) : Prop :=
  ∃ parts, Argument.Spells parts arguments ∧ invocation.MadeOf parts

/-- The arguments cannot be read, and what the user is told then. -/
inductive Misuses (arguments : List String) : String → Prop where
  | noConfigPath {parts : List Argument} {before : List String}
      (hs : Argument.Spells parts before) (h : arguments = before ++ ["--config"]) :
      Misuses arguments "Missing value for '--config'"
  | wrongCount {parts : List Argument} (hs : Argument.Spells parts arguments)
      (h : (parts.filterMap Argument.positional?).length ≠ 3) :
      Misuses arguments ("Usage: typegen-dev-cli <resolve|link|flatten|build|print> " ++
        "<schema_path> <operation_path> [--json] [--config <path>]")

def Holds {α : Type} (files : Files) (parse? : String → Option α) (path : String) (value : α) :
    Prop :=
  ∃ text, files.read path = .ok text ∧ parse? text = some value

section

variable (libraries : Libraries) (build : Build) (files : Files) (environment : Environment)

/-- The arguments can be read, and the settings loaded. -/
structure Prepared (arguments : List String) (invocation : Invocation) (settings : Settings) :
    Prop where
  invokes : Invokes arguments invocation
  configured : Settings.Configured files environment invocation.configPath? build settings

/-- The logger of the settings writes nothing. -/
def LoggingOff (arguments : List String) : Prop :=
  ∀ invocation settings, Prepared build files environment arguments invocation settings →
    ∀ event, libraries.logLines settings.log event = ""

/-- What is printed, if all checks pass. -/
inductive Answers (arguments : List String) : String → Prop where
  | intro {invocation : Invocation} {settings : Settings} {schema : Schema}
      {document : Source.Document} {command : Command} {text : String}
      (hp : Prepared build files environment arguments invocation settings)
      (hs : Holds files Schema.parse? invocation.schemaPath schema)
      (hd : Holds files Source.Document.parse? invocation.operationPath document)
      (hc : invocation.command = command.name)
      (h : command.Prints settings.transform schema document invocation.asJson text) :
      Answers arguments text

/-- What is said of the first check that fails, after those before it have passed. -/
inductive Fails (arguments : List String) : String → Prop where
  | usage {message : String} (h : Misuses arguments message) : Fails arguments message
  | environment {invocation : Invocation} {source : Settings.Variable}
      (hi : Invokes arguments invocation)
      (h : Settings.Variable.all.find? environment.isUnreadable = some source) :
      Fails arguments
        ("Failed to load the environment variables: Failed to parse environment variable " ++
          source.name)
  | configuration {invocation : Invocation} {fault : LoadFault}
      (hi : Invokes arguments invocation)
      (h : Settings.Misconfigured files environment invocation.configPath? build fault) :
      Fails arguments ("Failed to load configuration: " ++
        libraries.settingsFault files environment invocation.configPath? fault)
  | unreadSchema {invocation : Invocation} {settings : Settings} {error : ReadError}
      {words : String} (hp : Prepared build files environment arguments invocation settings)
      (h : files.read invocation.schemaPath = .error error) (hw : error.Says words) :
      Fails arguments
        ("Unable to read schema file '" ++ invocation.schemaPath ++ "': " ++ words)
  | malformedSchema {invocation : Invocation} {settings : Settings} {text : String}
      (hp : Prepared build files environment arguments invocation settings)
      (ht : files.read invocation.schemaPath = .ok text) (h : Schema.parse? text = none) :
      Fails arguments (libraries.schemaFault text)
  | unreadOperation {invocation : Invocation} {settings : Settings} {schema : Schema}
      {error : ReadError} {words : String}
      (hp : Prepared build files environment arguments invocation settings)
      (hs : Holds files Schema.parse? invocation.schemaPath schema)
      (h : files.read invocation.operationPath = .error error) (hw : error.Says words) :
      Fails arguments
        ("Unable to read operation file '" ++ invocation.operationPath ++ "': " ++ words)
  | malformedOperation {invocation : Invocation} {settings : Settings} {schema : Schema}
      {text : String} (hp : Prepared build files environment arguments invocation settings)
      (hs : Holds files Schema.parse? invocation.schemaPath schema)
      (ht : files.read invocation.operationPath = .ok text)
      (h : Source.Document.parse? text = none) :
      Fails arguments (libraries.operationFault text)
  | unknownCommand {invocation : Invocation} {settings : Settings} {schema : Schema}
      {document : Source.Document}
      (hp : Prepared build files environment arguments invocation settings)
      (hs : Holds files Schema.parse? invocation.schemaPath schema)
      (hd : Holds files Source.Document.parse? invocation.operationPath document)
      (h : ∀ command : Command, invocation.command ≠ command.name) :
      Fails arguments ("Unknown command '" ++ invocation.command ++
        "'. Available commands: resolve, link, flatten, build, print")
  | typing {invocation : Invocation} {settings : Settings} {schema : Schema}
      {document : Source.Document} {command : Command} {error : TypingError} {words : String}
      (hp : Prepared build files environment arguments invocation settings)
      (hs : Holds files Schema.parse? invocation.schemaPath schema)
      (hd : Holds files Source.Document.parse? invocation.operationPath document)
      (hc : invocation.command = command.name)
      (h : command.Refuses settings.transform schema document error) (hw : error.Says words) :
      Fails arguments words

end

variable {libraries : Libraries} {build : Build} {files : Files} {environment : Environment}
  {arguments : List String} {invocation : Invocation} {settings : Settings}

theorem parse_eq_ok_iff_invokes :
    Invocation.parse arguments = .ok invocation ↔ Invokes arguments invocation :=
  Invocation.parse_eq_ok_iff

theorem misuses_iff {message : String} : Misuses arguments message ↔
    ∃ error, Invocation.parse arguments = .error error ∧ error.message = message := by
  constructor
  · rintro (⟨hs, h⟩ | ⟨hs, h⟩)
    · exact ⟨.missingConfigPath, Invocation.parse_eq_error_iff.mpr (.inl ⟨rfl, _, _, hs, h⟩), rfl⟩
    · exact ⟨.wrongArguments, Invocation.parse_eq_error_iff.mpr (.inr ⟨rfl, _, hs, h⟩), rfl⟩
  · rintro ⟨error, h, rfl⟩
    rcases Invocation.parse_eq_error_iff.mp h with ⟨rfl, _, _, hs, h⟩ | ⟨rfl, _, hs, h⟩
    · exact .noConfigPath hs h
    · exact .wrongCount hs h

section Input

variable {α : Type} {parse? : String → Option α} {path : String}
  {unread : ReadError → CommandError} {malformed : String → CommandError}

theorem input_of_holds {value : α} (h : Holds files parse? path value) :
    input files parse? path unread malformed = pure value := by
  obtain ⟨text, ht, hv⟩ := h
  simp [input, ht, hv]

theorem input_of_unread {error : ReadError} (h : files.read path = .error error) :
    input files parse? path unread malformed = throw (unread error) := by
  simp [input, h]

theorem input_of_malformed {text : String} (ht : files.read path = .ok text)
    (h : parse? text = none) :
    input files parse? path unread malformed = throw (malformed text) := by
  simp [input, ht, h]

end Input

theorem session_of_prepared (hoff : LoggingOff libraries build files environment arguments)
    (hp : Prepared build files environment arguments invocation settings) :
    session files environment libraries build arguments = (do
      let schema ← input files Schema.parse? invocation.schemaPath
        (.unreadSchema invocation.schemaPath) (.malformedSchema <| libraries.schemaFault ·)
      let document ← input files Source.Document.parse? invocation.operationPath
        (.unreadOperation invocation.operationPath)
        (.malformedOperation <| libraries.operationFault ·)
      let command ← Program.orThrow (.unknownCommand invocation.command)
        (Command.ofName? invocation.command)
      command.perform invocation.asJson (fun _ => pure ()) settings.transform schema document) := by
  have hparse := parse_eq_ok_iff_invokes.mpr hp.invokes
  have hload : Settings.load files environment invocation.configPath? build
      (libraries.settingsFault files environment invocation.configPath?) = .ok settings :=
    Settings.load_eq_ok_iff_configured.mpr hp.configured
  have hlog := hoff _ _ hp
  simp [session, hparse, hload, hlog]

theorem session_of_answers (hoff : LoggingOff libraries build files environment arguments)
    {text : String} (h : Answers build files environment arguments text) :
    session files environment libraries build arguments = Program.print text := by
  obtain ⟨hp, hs, hd, hc, h⟩ := h
  rw [session_of_prepared hoff hp, input_of_holds hs, pure_bind, input_of_holds hd, pure_bind,
    Command.ofName?_eq_some_iff.mpr hc, Program.orThrow_some, pure_bind]
  exact Command.perform_of_prints (fun _ => rfl) h

theorem session_of_unloadable {error : SettingsError} (hi : Invokes arguments invocation)
    (h : Settings.load files environment invocation.configPath? build
      (libraries.settingsFault files environment invocation.configPath?) = .error error) :
    session files environment libraries build arguments = throw (.settings error) := by
  have hparse := parse_eq_ok_iff_invokes.mpr hi
  simp [session, hparse, h]

/-- A command line that fails says why and has printed nothing. -/
theorem session_of_fails (hoff : LoggingOff libraries build files environment arguments)
    {message : String} (h : Fails libraries build files environment arguments message) :
    ∃ error : CommandError, error.message = message ∧
      session files environment libraries build arguments = throw error := by
  cases h with
  | usage h =>
      obtain ⟨error, hparse, hmessage⟩ := misuses_iff.mp h
      exact ⟨.usage error, hmessage, by simp [session, hparse]⟩
  | environment hi h =>
      exact ⟨_, rfl, session_of_unloadable hi (Settings.load_eq_error_iff.mpr (.inl ⟨_, h, rfl⟩))⟩
  | configuration hi h =>
      exact ⟨_, rfl, session_of_unloadable hi (Settings.load_eq_error_iff.mpr (.inr ⟨_, h, rfl⟩))⟩
  | unreadSchema hp h hw =>
      obtain rfl := ReadError.says_iff.mp hw
      refine ⟨.unreadSchema _ _, rfl, ?_⟩
      rw [session_of_prepared hoff hp, input_of_unread h, Program.throw_bind]
  | malformedSchema hp ht h =>
      refine ⟨.malformedSchema _, rfl, ?_⟩
      rw [session_of_prepared hoff hp, input_of_malformed ht h, Program.throw_bind]
  | unreadOperation hp hs h hw =>
      obtain rfl := ReadError.says_iff.mp hw
      refine ⟨.unreadOperation _ _, rfl, ?_⟩
      rw [session_of_prepared hoff hp, input_of_holds hs, pure_bind, input_of_unread h,
        Program.throw_bind]
  | malformedOperation hp hs ht h =>
      refine ⟨.malformedOperation _, rfl, ?_⟩
      rw [session_of_prepared hoff hp, input_of_holds hs, pure_bind, input_of_malformed ht h,
        Program.throw_bind]
  | unknownCommand hp hs hd h =>
      have hnone := Option.eq_none_iff_forall_ne_some.mpr fun command hc =>
        h command (Command.ofName?_eq_some_iff.mp hc)
      refine ⟨.unknownCommand _, rfl, ?_⟩
      rw [session_of_prepared hoff hp, input_of_holds hs, pure_bind, input_of_holds hd, pure_bind,
        hnone, Program.orThrow_none, Program.throw_bind]
  | typing hp hs hd hc h hw =>
      obtain rfl := TypingError.says_iff.mp hw
      refine ⟨.typing _, rfl, ?_⟩
      rw [session_of_prepared hoff hp, input_of_holds hs, pure_bind, input_of_holds hd, pure_bind,
        Command.ofName?_eq_some_iff.mpr hc, Program.orThrow_some, pure_bind]
      exact Command.perform_of_refuses (fun _ => rfl) h

theorem holds_or_not {α : Type} (files : Files) (parse? : String → Option α) (path : String) :
    (∃ value, Holds files parse? path value) ∨ (∃ error, files.read path = .error error) ∨
      ∃ text, files.read path = .ok text ∧ parse? text = none := by
  cases ht : files.read path with
  | error error => exact .inr (.inl ⟨error, rfl⟩)
  | ok text =>
      cases hv : parse? text with
      | none => exact .inr (.inr ⟨text, rfl, hv⟩)
      | some value => exact .inl ⟨value, text, ht, hv⟩

/-- All checks pass, or there is a first that fails. -/
theorem answers_or_fails (libraries : Libraries) (build : Build) (files : Files)
    (environment : Environment) (arguments : List String) :
    (∃ text, Answers build files environment arguments text) ∨
      ∃ message, Fails libraries build files environment arguments message := by
  cases hparse : Invocation.parse arguments with
  | error error => exact .inr ⟨_, .usage (misuses_iff.mpr ⟨error, hparse, rfl⟩)⟩
  | ok invocation =>
  have hi := parse_eq_ok_iff_invokes.mp hparse
  cases hload : Settings.load files environment invocation.configPath? build
      (libraries.settingsFault files environment invocation.configPath?) with
  | error error =>
      rcases Settings.load_eq_error_iff.mp hload with ⟨source, h, -⟩ | ⟨fault, h, -⟩
      · exact .inr ⟨_, .environment hi h⟩
      · exact .inr ⟨_, .configuration hi h⟩
  | ok settings =>
  have hp : Prepared build files environment arguments invocation settings :=
    ⟨hi, Settings.load_eq_ok_iff_configured.mp hload⟩
  rcases holds_or_not files Schema.parse? invocation.schemaPath with
    ⟨schema, hs⟩ | ⟨error, h⟩ | ⟨text, ht, h⟩
  · rcases holds_or_not files Source.Document.parse? invocation.operationPath with
      ⟨document, hd⟩ | ⟨error, h⟩ | ⟨text, ht, h⟩
    · by_cases hc : ∃ command : Command, invocation.command = command.name
      · obtain ⟨command, hc⟩ := hc
        rcases command.prints_or_refuses invocation.asJson settings.transform schema document with
          ⟨text, h⟩ | ⟨error, h⟩
        · exact .inl ⟨text, hp, hs, hd, hc, h⟩
        · exact .inr ⟨_, .typing hp hs hd hc h (TypingError.says_iff.mpr rfl)⟩
      · exact .inr ⟨_, .unknownCommand hp hs hd fun command h => hc ⟨command, h⟩⟩
    · exact .inr ⟨_, .unreadOperation hp hs h (ReadError.says_iff.mpr rfl)⟩
    · exact .inr ⟨_, .malformedOperation hp hs ht h⟩
  · exact .inr ⟨_, .unreadSchema hp h (ReadError.says_iff.mpr rfl)⟩
  · exact .inr ⟨_, .malformedSchema hp ht h⟩

theorem run_of_answers (hoff : LoggingOff libraries build files environment arguments)
    {text : String} (h : Answers build files environment arguments text) :
    run files environment arguments libraries build =
      { exitCode := 0, stdout := text, stderr := "" } := by
  rw [run, session_of_answers hoff h, Program.leave_print]

theorem run_of_fails (hoff : LoggingOff libraries build files environment arguments)
    {message : String} (h : Fails libraries build files environment arguments message) :
    run files environment arguments libraries build =
      { exitCode := 1, stdout := "", stderr := message ++ "\n" } := by
  obtain ⟨error, rfl, hsession⟩ := session_of_fails hoff h
  rw [run, hsession, Program.leave_throw]

/-- All checks pass, or there is a first that fails, and the command line ends accordingly. -/
theorem run_cases (hoff : LoggingOff libraries build files environment arguments) :
    (∃ text, Answers build files environment arguments text ∧
      run files environment arguments libraries build =
        { exitCode := 0, stdout := text, stderr := "" }) ∨
    ∃ message, Fails libraries build files environment arguments message ∧
      run files environment arguments libraries build =
        { exitCode := 1, stdout := "", stderr := message ++ "\n" } := by
  rcases answers_or_fails libraries build files environment arguments with
    ⟨text, h⟩ | ⟨message, h⟩
  · exact .inl ⟨text, h, run_of_answers hoff h⟩
  · exact .inr ⟨message, h, run_of_fails hoff h⟩

theorem answers_iff (hoff : LoggingOff libraries build files environment arguments)
    (text : String) : Answers build files environment arguments text ↔
      run files environment arguments libraries build =
        { exitCode := 0, stdout := text, stderr := "" } := by
  refine ⟨run_of_answers hoff, fun hrun => ?_⟩
  rcases run_cases hoff with ⟨other, h, hother⟩ | ⟨message, h, hother⟩
  · rw [hother, Outcome.mk.injEq] at hrun
    exact hrun.2.1 ▸ h
  · rw [hother, Outcome.mk.injEq] at hrun
    exact absurd hrun.1 (by decide)

theorem fails_iff (hoff : LoggingOff libraries build files environment arguments)
    (message : String) : Fails libraries build files environment arguments message ↔
      run files environment arguments libraries build =
        { exitCode := 1, stdout := "", stderr := message ++ "\n" } := by
  refine ⟨run_of_fails hoff, fun hrun => ?_⟩
  rcases run_cases hoff with ⟨text, h, hother⟩ | ⟨other, h, hother⟩
  · rw [hother, Outcome.mk.injEq] at hrun
    exact absurd hrun.1 (by decide)
  · rw [hother, Outcome.mk.injEq] at hrun
    have hsame : other = message := String.append_left_inj "\n" |>.mp hrun.2.2.1
    exact hsame ▸ h

theorem exitCode_eq_zero_iff (hoff : LoggingOff libraries build files environment arguments) :
    (run files environment arguments libraries build).exitCode = 0 ↔
      ∀ message, ¬ Fails libraries build files environment arguments message := by
  constructor
  · intro h message hf
    rw [run_of_fails hoff hf] at h
    cases h
  · intro h
    rcases run_cases hoff with ⟨text, -, hrun⟩ | ⟨message, hf, -⟩
    · rw [hrun]
    · exact absurd hf (h message)

/-- Command lines that fail alike end alike, but for what is printed. -/
theorem same_outcome_of_fails_iff {arguments' : List String}
    (hoff : LoggingOff libraries build files environment arguments)
    (hoff' : LoggingOff libraries build files environment arguments')
    (h : ∀ message, Fails libraries build files environment arguments message ↔
      Fails libraries build files environment arguments' message) :
    (run files environment arguments libraries build).exitCode =
        (run files environment arguments' libraries build).exitCode ∧
      (run files environment arguments libraries build).stderr =
        (run files environment arguments' libraries build).stderr := by
  rcases run_cases hoff with ⟨text, -, hrun⟩ | ⟨message, hf, hrun⟩
  · rcases run_cases hoff' with ⟨text', -, hrun'⟩ | ⟨message, hf', -⟩
    · rw [hrun, hrun']
      exact ⟨rfl, rfl⟩
    · have hfailed := run_of_fails hoff ((h message).mpr hf')
      rw [hrun, Outcome.mk.injEq] at hfailed
      exact absurd hfailed.1 (by decide)
  · rw [hrun, run_of_fails hoff' ((h message).mp hf)]
    exact ⟨rfl, rfl⟩

/-! ### Commands that link -/

section Commands

variable {before after : List String} {command command' : Command}

theorem parse_command_name (hb : OnlyFlags before) (after : List String) :
    (∃ error, ∀ command : Command,
      Invocation.parse (before ++ command.name :: after) = .error error) ∨
    ∃ invocation : Invocation, ∀ command : Command,
      Invocation.parse (before ++ command.name :: after) =
        .ok { invocation with command := command.name } := by
  rcases parse_command hb after with ⟨error, hparse⟩ | ⟨invocation, hparse⟩
  · exact .inl ⟨error, fun command => hparse _ command.name_ne_json command.name_ne_config⟩
  · exact .inr ⟨invocation, fun command => hparse _ command.name_ne_json command.name_ne_config⟩

theorem Invokes.of_command (hb : OnlyFlags before) (command' : Command)
    (h : Invokes (before ++ command.name :: after) invocation) :
    invocation.command = command.name ∧
      Invokes (before ++ command'.name :: after) { invocation with command := command'.name } := by
  rw [← parse_eq_ok_iff_invokes] at h ⊢
  rcases parse_command_name hb after with ⟨error, hparse⟩ | ⟨other, hparse⟩
  · cases (hparse command).symm.trans h
  · cases (hparse command).symm.trans h
    exact ⟨rfl, hparse command'⟩

theorem Misuses.of_command (hb : OnlyFlags before) (command' : Command) {message : String}
    (h : Misuses (before ++ command.name :: after) message) :
    Misuses (before ++ command'.name :: after) message := by
  rw [misuses_iff] at h ⊢
  obtain ⟨cause, hcause, hmessage⟩ := h
  rcases parse_command_name hb after with ⟨error, hparse⟩ | ⟨other, hparse⟩
  · cases (hparse command).symm.trans hcause
    exact ⟨_, hparse command', hmessage⟩
  · cases (hparse command).symm.trans hcause

theorem Prepared.of_command (hb : OnlyFlags before) (command' : Command)
    (h : Prepared build files environment (before ++ command.name :: after) invocation settings) :
    invocation.command = command.name ∧ Prepared build files environment
      (before ++ command'.name :: after) { invocation with command := command'.name } settings := by
  obtain ⟨hname, hi⟩ := h.invokes.of_command hb command'
  exact ⟨hname, hi, h.configured⟩

theorem LoggingOff.of_command (hb : OnlyFlags before) (command' : Command)
    (h : LoggingOff libraries build files environment (before ++ command.name :: after)) :
    LoggingOff libraries build files environment (before ++ command'.name :: after) := by
  intro invocation settings hp
  obtain ⟨-, hp⟩ := hp.of_command hb command
  exact h _ _ hp

/-- A command that links fails in all ways in which another command fails. -/
theorem Fails.of_command (hb : OnlyFlags before) (hlate : command' ≠ .resolve) {message : String}
    (h : Fails libraries build files environment (before ++ command.name :: after) message) :
    Fails libraries build files environment (before ++ command'.name :: after) message := by
  cases h with
  | usage h => exact .usage (h.of_command hb command')
  | environment hi h => exact .environment (hi.of_command hb command').2 h
  | configuration hi h => exact (Fails.configuration (hi.of_command hb command').2 h :)
  | unreadSchema hp h hw => exact (Fails.unreadSchema (hp.of_command hb command').2 h hw :)
  | malformedSchema hp ht h => exact .malformedSchema (hp.of_command hb command').2 ht h
  | unreadOperation hp hs h hw =>
      exact (Fails.unreadOperation (hp.of_command hb command').2 hs h hw :)
  | malformedOperation hp hs ht h => exact .malformedOperation (hp.of_command hb command').2 hs ht h
  | unknownCommand hp hs hd h => exact absurd (hp.of_command hb command').1 (h command)
  | typing hp hs hd hc h hw =>
      refine .typing (hp.of_command hb command').2 hs hd rfl ?_ hw
      cases h with
      | resolving h => exact .resolving h
      | linking _ hr h => exact .linking hlate hr h

end Commands

theorem late_of_mem {name : String} (h : name ∈ ["link", "flatten", "build", "print"]) :
    ∃ command : Command, name = command.name ∧ command ≠ .resolve := by
  simp only [List.mem_cons, List.not_mem_nil, or_false] at h
  rcases h with rfl | rfl | rfl | rfl
  · exact ⟨.link, rfl, by decide⟩
  · exact ⟨.flatten, rfl, by decide⟩
  · exact ⟨.build, rfl, by decide⟩
  · exact ⟨.print, rfl, by decide⟩

/-- Where nothing is logged, a command line either prints the whole of its answer and says nothing,
or prints nothing and says just what there is to say of the first check that fails. Whether and why
it fails does not depend on which of the commands is asked for that link, and what they accept can
be resolved. -/
theorem run_outcome (libraries : Libraries) (build : Build) (files : Files)
    (environment : Environment) :
    (∀ arguments, LoggingOff libraries build files environment arguments →
      ((∃ text, Answers build files environment arguments text) ∨
        ∃ message, Fails libraries build files environment arguments message) ∧
      (∀ text, Answers build files environment arguments text ↔
        run files environment arguments libraries build =
          { exitCode := 0, stdout := text, stderr := "" }) ∧
      ∀ message, Fails libraries build files environment arguments message ↔
        run files environment arguments libraries build =
          { exitCode := 1, stdout := "", stderr := message ++ "\n" }) ∧
    ∀ before after, OnlyFlags before → ∀ name ∈ ["link", "flatten", "build", "print"],
      LoggingOff libraries build files environment (before ++ name :: after) →
      (∀ name' ∈ ["link", "flatten", "build", "print"],
        (run files environment (before ++ name :: after) libraries build).exitCode =
            (run files environment (before ++ name' :: after) libraries build).exitCode ∧
          (run files environment (before ++ name :: after) libraries build).stderr =
            (run files environment (before ++ name' :: after) libraries build).stderr) ∧
      ((run files environment (before ++ name :: after) libraries build).exitCode = 0 →
        (run files environment (before ++ "resolve" :: after) libraries build).exitCode = 0) := by
  constructor
  · intro arguments hoff
    exact ⟨answers_or_fails libraries build files environment arguments, answers_iff hoff,
      fails_iff hoff⟩
  · intro before after hb name hname hoff
    obtain ⟨command, rfl, hlate⟩ := late_of_mem hname
    constructor
    · intro name' hname'
      obtain ⟨command', rfl, hlate'⟩ := late_of_mem hname'
      apply same_outcome_of_fails_iff hoff (hoff.of_command hb command')
      intro message
      exact ⟨fun h => h.of_command hb hlate', fun h => h.of_command hb hlate⟩
    · intro hcode
      have hfails := (exitCode_eq_zero_iff hoff).mp hcode
      have hresolve : (run files environment (before ++ Command.resolve.name :: after)
          libraries build).exitCode = 0 := by
        rw [exitCode_eq_zero_iff (hoff.of_command hb .resolve)]
        intro message h
        exact hfails message (h.of_command hb hlate)
      exact hresolve

theorem loggingOff_of_filter {filter : String} (arguments : List String)
    (hf : environment.lookup "LOG_FILTER" = some filter)
    (hsilent : ∀ format event, libraries.logged format filter event = "") :
    LoggingOff libraries build files environment arguments := by
  intro invocation settings hp event
  have hfilter := hp.configured.filter_eq hf
  rw [Libraries.logLines, LogSettings.effectiveFilter, hfilter]
  exact hsilent _ _

def oneField : Files :=
  [("c.yml", ""), ("s", "type Query \x7b a: Int \x7d"), ("q", "\x7b a \x7d")]

def quiet : Environment := [("LOG_FILTER", "off")]

def talkative : Libraries where
  schemaFault _ := "schema parse error"
  logged _ filter _ := if filter = "off" then "" else "step\n"

private theorem read_oneField :
    oneField.read "s" = .ok "type Query \x7b a: Int \x7d" ∧
      oneField.read "q" = .ok "\x7b a \x7d" := by
  decide +kernel

private theorem load_oneField : Settings.load oneField quiet (some "c.yml") .release =
    .ok { log := { level := .warn, filter := some "off" } } := by decide +kernel

private theorem prepared_oneField {command schemaPath operationPath : String}
    (hc : command ≠ "--json" ∧ command ≠ "--config")
    (hs : schemaPath ≠ "--json" ∧ schemaPath ≠ "--config")
    (ho : operationPath ≠ "--json" ∧ operationPath ≠ "--config") :
    Prepared .release oneField quiet ["--config", "c.yml", command, schemaPath, operationPath]
      ⟨command, schemaPath, operationPath, false, some "c.yml"⟩
      { log := { level := .warn, filter := some "off" } } where
  invokes := by
    refine ⟨[.config "c.yml", .positional command, .positional schemaPath,
      .positional operationPath], ⟨rfl, ?_⟩, rfl, by simp, rfl⟩
    simp [Argument.Proper, hc, hs, ho]
  configured := Settings.load_eq_ok_iff_configured.mp load_oneField

private theorem answers_oneField : Answers .release oneField quiet
    ["--config", "c.yml", "link", "s", "q"] "query \x7b\n  a: Int\n\x7d\n\n" := by
  obtain ⟨hs, hq⟩ := read_oneField
  have hlink : (do
      let schema ← Schema.parse? "type Query \x7b a: Int \x7d"
      let document ← Source.Document.parse? "\x7b a \x7d"
      let resolved ← (schema.resolve 64 document).toOption
      let linked ← (resolved.link 64).toOption
      return (linkedText 0 linked ++ "\n")) = some "query \x7b\n  a: Int\n\x7d\n\n" := by
    decide +kernel
  simp only [Option.bind_eq_bind, Option.bind_eq_some_iff, toOption_eq_some_iff,
    Option.pure_def, Option.some.injEq] at hlink
  obtain ⟨schema, hschema, document, hdocument, resolved, hr, linked, hl, htext⟩ := hlink
  rw [← htext]
  exact ⟨prepared_oneField (by decide) (by decide) (by decide), ⟨_, hs, hschema⟩,
    ⟨_, hq, hdocument⟩, rfl, .link false ⟨hr, hl⟩⟩

theorem run_outcome_oneField :
    OnlyFlags ["--config", "c.yml"] ∧
      LoggingOff talkative .release oneField quiet ["--config", "c.yml", "link", "s", "q"] ∧
      run oneField quiet ["--config", "c.yml", "link", "s", "q"] talkative .release =
        { stdout := "query \x7b\n  a: Int\n\x7d\n\n" } ∧
      (run oneField quiet ["--config", "c.yml", "print", "s", "q"] talkative .release).exitCode =
        0 ∧
      (run oneField quiet ["--config", "c.yml", "print", "s", "q"] talkative .release).stderr =
        "" ∧
      (run oneField quiet ["--config", "c.yml", "resolve", "s", "q"] talkative .release).exitCode =
        0 ∧
      LoggingOff talkative .release oneField quiet ["--config", "c.yml", "link", "q", "s"] ∧
      run oneField quiet ["--config", "c.yml", "link", "q", "s"] talkative .release =
        { exitCode := 1, stderr := "schema parse error\n" } := by
  have hflags : OnlyFlags ["--config", "c.yml"] :=
    ⟨[.config "c.yml"], ⟨rfl, by simp [Argument.Proper]⟩, by simp⟩
  have hoff (arguments : List String) :
      LoggingOff talkative .release oneField quiet arguments :=
    loggingOff_of_filter arguments (show quiet.lookup "LOG_FILTER" = some "off" from rfl)
      fun _ _ => rfl
  obtain ⟨-, hanswers, -⟩ := (run_outcome talkative .release oneField quiet).1
    ["--config", "c.yml", "link", "s", "q"] (hoff _)
  have hrun := (hanswers _).mp answers_oneField
  obtain ⟨hsame, hresolve⟩ := (run_outcome talkative .release oneField quiet).2
    ["--config", "c.yml"] ["s", "q"] hflags "link" (by decide) (hoff _)
  obtain ⟨hcode, herr⟩ := hsame "print" (by decide)
  rw [List.cons_append, List.cons_append, List.nil_append, hrun] at hcode herr hresolve
  -- The text of the operation is no schema.
  have hfails : Fails talkative .release oneField quiet ["--config", "c.yml", "link", "q", "s"]
      "schema parse error" :=
    .malformedSchema (prepared_oneField (by decide) (by decide) (by decide)) read_oneField.2
      (by decide +kernel)
  obtain ⟨-, -, hsaid⟩ := (run_outcome talkative .release oneField quiet).1
    ["--config", "c.yml", "link", "q", "s"] (hoff _)
  exact ⟨hflags, hoff _, hrun, hcode.symm, herr.symm, hresolve rfl, hoff _, (hsaid _).mp hfails⟩

end CommandLine
end QueryShape
