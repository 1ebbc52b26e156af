/-!
# Events

Short reports on a composite, which a composition makes on the way and which are published for
people to read. Publishing never fails: an event that is lost does no harm.
-/

namespace ResourceComposition

/-- Whether an event reports success or trouble. -/
inductive EventType where
  /-- All is well. -/
  | normal
  /-- Something needs attention. -/
  | warning
  deriving DecidableEq

/-- The word for a type of event. -/
def EventType.word : EventType → String
  | .normal => "Normal"
  | .warning => "Warning"

/-- A report on a composite. -/
structure Event where
  /-- Whether all is well. -/
  type : EventType
  /-- The reason, in one word. -/
  reason : String
  /-- The report. -/
  message : String
  deriving DecidableEq

namespace Event

/-- A report of trouble. -/
def warning (reason message : String) : Event := ⟨.warning, reason, message⟩

/-- A report of success. -/
def normal (reason message : String) : Event := ⟨.normal, reason, message⟩

/-- The reason of events on resources that could not be composed. -/
def cannotCompose : String := "CannotComposeResources"

/-- The reason of events on connection details that could not be published. -/
def cannotPublishDetails : String := "CannotPublishConnectionDetails"

/-- The reason of events on connection details that were published. -/
def publishedDetails : String := "PublishConnectionDetails"

/-- The action that events are published for. -/
def composeAction : String := "Compose"

end Event

end ResourceComposition
