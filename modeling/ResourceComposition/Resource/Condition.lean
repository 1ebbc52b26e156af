import ResourceComposition.Resource.Basic

/-!
# Status conditions

Controllers report what they find out about a resource as conditions in its status. A condition
says of one aspect whether it holds, why, and since when. Entries of the list that are no
conditions are passed over.

A condition that does not say since when it holds is stamped with the time of the clock when it
is written.
-/

namespace ResourceComposition

/-- Whether a condition holds. -/
inductive ConditionStatus where
  /-- It holds. -/
  | true
  /-- It does not hold. -/
  | false
  /-- It is not known whether it holds. -/
  | unknown
  deriving DecidableEq

namespace ConditionStatus

/-- The word for a status. -/
def word : ConditionStatus → String
  | .true => "True"
  | .false => "False"
  | .unknown => "Unknown"

/-- The statuses by their words. -/
def words : List (String × ConditionStatus) :=
  [.true, .false, .unknown].map fun status => (word status, status)

/-- The status that a value stands for. -/
def decode : Decoder ConditionStatus := Decode.variant words

end ConditionStatus

/-- What a controller found out about one aspect of a resource. -/
structure Condition where
  /-- The aspect. -/
  type : String
  /-- Whether the condition holds. -/
  status : ConditionStatus
  /-- The reason, in one word. -/
  reason : String := ""
  /-- The reason, in a sentence. -/
  message : String := ""
  /-- When the status changed last; none stands for the time of writing. -/
  lastTransition : Option Instant := none
  deriving DecidableEq

namespace Condition

/-- The aspect that a resource can be used. -/
def ready : String := "Ready"

/-- The condition of a resource that can be used. -/
def available : Condition := { type := ready, status := .true, reason := "Available" }

/-- The condition of a resource that is still being made. -/
def creating (message : String) : Condition :=
  { type := ready, status := .false, reason := "Creating", message }

/-- The condition that a value stands for. -/
def decode : Decoder Condition :=
  let text (name : String) := Decode.givenOr name "" Decode.string
  Decode.record "struct Condition" .listed <|
    Condition.mk <$> Decode.required "type" Decode.string <*>
      Decode.required "status" ConditionStatus.decode <*> text "reason" <*> text "message" <*>
      Decode.given "lastTransitionTime" Decode.instant

/-- The value of a condition, stamped with the time of the clock if it says no other. -/
def encode (now : Instant) (c : Condition) : Json :=
  .ofPresent [
    ("lastTransitionTime", some (.string (c.lastTransition.getD now).render)),
    ("message", if c.message.isEmpty then none else some (.string c.message)),
    ("reason", some (.string c.reason)),
    ("status", some (.string c.status.word)),
    ("type", some (.string c.type))]

/-- Whether two conditions say the same, the time left out of account. -/
def equivalent (c d : Condition) : Bool :=
  c.type = d.type ∧ c.status = d.status ∧ c.reason = d.reason ∧ c.message = d.message

/-- A new condition in place of an old one of its type. It keeps the time of the old one if the
status is the same. -/
def replacing (new old : Condition) : Condition :=
  if old.status = new.status then { new with lastTransition := old.lastTransition } else new

/-- Put a condition into a list: in place of the first of its type, or at the end. -/
def upsert (new : Condition) : List Condition → List Condition
  | [] => [new]
  | old :: rest => if old.type = new.type then new.replacing old :: rest else old :: upsert new rest

end Condition

namespace Resource

/-- Where the conditions of a resource are. -/
def conditionsPath : String := "status.conditions"

/-- The values of a list that are conditions. -/
def parsedConditions (items : List Json) : List Condition :=
  items.filterMap fun item => (Condition.decode item).toOption

/-- The conditions of a resource. -/
def conditions (r : Resource) : List Condition :=
  match r.get? conditionsPath with
  | .ok (some (.array items)) => parsedConditions items
  | _ => []

/-- The first condition of a type. -/
def condition? (r : Resource) (type : String) : Option Condition :=
  r.conditions.find? fun c => c.type = type

/-- Whether a resource says that it can be used. -/
def isReady (r : Resource) : Bool :=
  (r.condition? Condition.ready).any fun c => c.status = .true

/-- Set a condition. Nothing changes if the first condition of its type says the same; otherwise
the list is written anew, with the conditions alone. The answer says whether anything changed. -/
def setCondition (now : Instant) (c : Condition) (r : Resource) : Except Error (Bool × Resource) :=
  if (r.condition? c.type).any (·.equivalent c) then .ok (false, r)
  else
    let conditions := c.upsert r.conditions
    (r.setField conditionsPath (.array (conditions.map (Condition.encode now)))).map (true, ·)

/-- Set a condition in place. The answer says whether anything changed. -/
def setConditionInPlace (now : Instant) (c : Condition) : ExceptT Error (StateM Resource) Bool := do
  let r ← get
  if (r.condition? c.type).any (·.equivalent c) then return false
  else
    let conditions := c.upsert r.conditions
    setFieldInPlace conditionsPath (.array (conditions.map (Condition.encode now)))
    return true

end Resource

end ResourceComposition
