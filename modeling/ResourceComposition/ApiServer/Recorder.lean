import ResourceComposition.ApiServer.Http
import ResourceComposition.Event
import ResourceComposition.Resource.Metadata
import ResourceComposition.Resource.Reference

/-!
# Recording events

Events are kept by the API server as objects of their own. An event that happens again is not
written anew: the recorder remembers what it has written, and when an event of the same kind comes
back it counts up the series of the event that is there. Two events are of one kind if they agree in
type, action, reason and what they are about; their messages may differ, and the first one stays.

The recorder remembers an event only once the server has taken it.
-/

namespace ResourceComposition

/-- An event as the API server keeps it. -/
structure EventRecord where
  /-- What the event is about. -/
  regarding : Reference
  /-- The event. -/
  event : Event
  /-- What was done when it happened. -/
  action : String
  /-- Who reports it. -/
  controller : String
  /-- When it first happened. -/
  firstSeen : Instant
  /-- How often it has happened, if more than once, and when it last did. -/
  series : Option (Nat × Instant) := none
  deriving DecidableEq

namespace EventRecord

/-- The group and version of events. -/
def apiVersion : String := "events.k8s.io/v1"

/-- The kind of events. -/
def kind : String := "Event"

/-- The beginning of the name: what the event is about, or else who reports it. -/
def namePrefix (r : EventRecord) : String := r.regarding.name.getD r.controller

/-- The name of the event; the time in it makes it unique. -/
def name (r : EventRecord) : String :=
  r.namePrefix ++ "." ++ String.ofList (Nat.toDigits 16 r.firstSeen.sinceEpoch.toNat)

/-- The path to the events of the namespace that the event belongs to. -/
def collectionPath (r : EventRecord) : String :=
  "/apis/events.k8s.io/v1/namespaces/" ++ r.regarding.ns.getD "default" ++ "/events"

/-- The JSON form of the event. -/
def encode (r : EventRecord) : Json :=
  .ofPresent [
    ("action", some (.string r.action)),
    ("apiVersion", some (.string apiVersion)),
    ("eventTime", some (.string r.firstSeen.renderMicroseconds)),
    ("kind", some (.string kind)),
    ("metadata", some (.ofPresent [
      ("name", some (.string r.name)),
      ("namespace", r.regarding.ns.map .string)])),
    ("note", some (.string r.event.message)),
    ("reason", some (.string r.event.reason)),
    ("regarding", some r.regarding.encode),
    ("reportingController", some (.string r.controller)),
    ("reportingInstance", some (.string r.controller)),
    ("series", r.series.map fun (count, lastSeen) => .object [
      ("count", .int count),
      ("lastObservedTime", .string lastSeen.renderMicroseconds)]),
    ("type", some (.string r.event.type.word))]

/-- What the server answers when it has taken an event: the event. Nothing is made of its parts, but
they have to have the right form. -/
def decodeTaken : Decoder Unit :=
  let text (name : String) := Decode.optional name Decode.string
  let time (name : String) := Decode.optional name Decode.instant
  let number := Decode.intWithin (-Nat.pow 2 31) (Nat.pow 2 31 - 1) "i32"
  let count (name : String) := Decode.optional name number
  let source := Decode.record "EventSource" .plain (text "component" <* text "host")
  let series := Decode.record "EventSeries" .plain
    (Decode.required "lastObservedTime" Decode.instant <* count "count")
  Decode.record "Event" .plain <|
    pure () <* text "action" <* Decode.given "apiVersion" (Decode.exactly apiVersion) <*
      count "deprecatedCount" <* time "deprecatedFirstTimestamp" <*
      time "deprecatedLastTimestamp" <* Decode.optional "deprecatedSource" source <*
      time "eventTime" <* Decode.given "kind" (Decode.exactly kind) <*
      Decode.optional "metadata" Metadata.decode <* text "note" <* text "reason" <*
      Decode.optional "regarding" Reference.decode <* Decode.optional "related" Reference.decode <*
      text "reportingController" <* text "reportingInstance" <* Decode.optional "series" series <*
      text "type"

/-- Whether an event is of the kind that was recorded. -/
def isRepeatedBy (r : EventRecord) (about : Reference) (event : Event) (action : String) : Bool :=
  r.event.type = event.type ∧ r.action = action ∧ r.event.reason = event.reason ∧
    r.regarding = about

/-- The record with one more happening. -/
def again (now : Instant) (r : EventRecord) : EventRecord :=
  { r with series := some (r.series.elim 2 (·.1 + 1), now) }

/-- The request that writes a record: a new one is created, and one that has happened before is
changed. -/
def request (r : EventRecord) : HttpRequest :=
  if r.series.isSome then
    { method := .patch
      address := r.collectionPath ++ "/" ++ r.name ++ "?"
      content := some (.mergePatch r.encode) }
  else
    { method := .post, address := r.collectionPath ++ "?", content := some (.json r.encode) }

end EventRecord

/-- Who records events, and what was recorded. -/
structure Recorder where
  /-- Who reports the events. -/
  controller : String
  /-- The events that were recorded, of each kind one. -/
  recorded : List EventRecord := []

namespace Recorder

/-- The record of an event that happens now. -/
def recordOf (now : Instant) (about : Reference) (event : Event) (action : String)
    (r : Recorder) : EventRecord :=
  match r.recorded.find? (·.isRepeatedBy about event action) with
  | some before => before.again now
  | none => { regarding := about, event, action, controller := r.controller, firstSeen := now }

/-- Remember a record, in place of the one of its kind. -/
def remember (record : EventRecord) (r : Recorder) : Recorder :=
  { r with recorded := record ::
      r.recorded.filter fun other =>
        !other.isRepeatedBy record.regarding record.event record.action }

/-- The recorder after the answer to the request that wrote a record. -/
def afterAnswer (record : EventRecord) (answer : HttpAnswer) (r : Recorder) : Recorder :=
  match answer.granted EventRecord.decodeTaken.read with
  | .ok _ => r.remember record
  | .error _ => r

end Recorder

end ResourceComposition
