import ResourceComposition.Text.Blank
import ResourceComposition.Text.Lowercase

/-!
# Logging

How a process that composes resources writes its log. The form of the log is chosen by a word,
which usually comes from the environment of the process. A process starts logging once; a second
start is an error.
-/

namespace ResourceComposition

/-- The form of a log. -/
inductive LogFormat where
  /-- One JSON object a line. -/
  | json
  /-- Lines for people to read. -/
  | pretty
  deriving DecidableEq

/-- The name of a form. -/
def LogFormat.word : LogFormat → String
  | .json => "Json"
  | .pretty => "Pretty"

/-- The form that a word stands for. Blanks around the word and the case of its letters do not
matter, and an unknown word stands for JSON. -/
def LogFormat.parse (text : String) : LogFormat :=
  let word := String.ofList (Text.asciiLowercase (Text.trim text.toList))
  if word = "pretty" ∨ word = "text" then .pretty else .json

/-- How a process writes its log. -/
structure LogConfig where
  /-- The form. -/
  format : LogFormat
  /-- What is written, unless the environment asks for something else. -/
  defaultFilter : String
  deriving DecidableEq

namespace LogConfig

/-- What is written as a rule. -/
def standardFilter : String := "info,tessera=debug,kube=info,tower=warn,hyper=warn"

/-- The configuration for a word for the form, where one was chosen. -/
def ofEnvironment (word : Option String) : LogConfig :=
  ⟨word.elim .json LogFormat.parse, standardFilter⟩

end LogConfig

/-- Whether a process writes a log. -/
inductive LogState where
  /-- Not yet. -/
  | silent
  /-- It does. -/
  | started (config : LogConfig)
  deriving DecidableEq

/-- Why logging cannot be started. -/
inductive LogFault where
  /-- It has been started before. -/
  | startedBefore
  deriving DecidableEq

/-- The wording of a fault. -/
def LogFault.message : LogFault → String
  | .startedBefore =>
    "failed to initialize tracing subscriber: " ++
      "a global default trace dispatcher has already been set"

/-- Start logging. -/
def LogState.start (config : LogConfig) : LogState → Except LogFault LogState
  | .silent => .ok (.started config)
  | .started _ => .error .startedBefore

end ResourceComposition
