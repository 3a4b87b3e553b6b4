import QueryShape.Files
import QueryShape.TypingError

/-!
# Settings

What can be configured: how messages are logged and how documents are typed.
-/

namespace QueryShape

inductive LogLevel where
  | trace
  | debug
  | info
  | warn
  | error
deriving DecidableEq, Repr

inductive LogFormat where
  | text
  | json
deriving DecidableEq, Repr

inductive Build where
  | debug
  | release
deriving DecidableEq, Repr

/-- The lower case of a text, as far as it decides whether the text is a word in ASCII: no word that
the settings know has a letter `k`, the only one that is the lower case of a character beyond. -/
def lowerCase (text : String) : String := String.ofList (text.toList.map Char.toLower)

namespace LogLevel

def all : List LogLevel := [.trace, .debug, .info, .warn, .error]

def name : LogLevel → String
  | .trace => "trace"
  | .debug => "debug"
  | .info => "info"
  | .warn => "warn"
  | .error => "error"

def initial : Build → LogLevel
  | .debug => .debug
  | .release => .warn

def ofName? (name : String) : Option LogLevel := all.find? (·.name = name)

def read? (text : String) : Option LogLevel := ofName? (lowerCase text)

def readError (text : String) : String := "Invalid log level: " ++ text

end LogLevel

namespace LogFormat

def all : List LogFormat := [.text, .json]

def name : LogFormat → String
  | .text => "text"
  | .json => "json"

def ofName? (name : String) : Option LogFormat := all.find? (·.name = name)

def read? (text : String) : Option LogFormat := ofName? (lowerCase text)

def readError (text : String) : String := "Invalid log format: " ++ text

end LogFormat

structure LogSettings where
  level : LogLevel
  format : LogFormat := .text
  filter : Option String := none
deriving DecidableEq, Repr

def LogSettings.initial (build : Build) : LogSettings := { level := .initial build }

/-- Which messages are logged: a filter takes precedence over the level. -/
def LogSettings.effectiveFilter (log : LogSettings) : String := log.filter.getD log.level.name

structure Settings where
  log : LogSettings
  transform : Options := {}
deriving DecidableEq, Repr

def Settings.initial (build : Build) : Settings := { log := .initial build }

/-- Why files make no settings. -/
inductive LoadFault where
  | missingFile (path : String)
  | unknownFormat (path : String)
  | unreadFile (path : String) (error : ReadError)
  | malformedFile (path : String)
  | notATable (path : String)
  | unknownKey (key : String)
  | invalidValue (key : String)
deriving DecidableEq, Repr

/-- Why there are no settings. A fault of the files is told in the words of those who read them. -/
inductive SettingsError where
  | unreadableVariable (name : String)
  | unloadable (words : String)
deriving DecidableEq, Repr

def SettingsError.message : SettingsError → String
  | .unreadableVariable name =>
      "Failed to load the environment variables: Failed to parse environment variable " ++ name
  | .unloadable words => "Failed to load configuration: " ++ words

end QueryShape
