import ResourceComposition.ApiServer.Location
import ResourceComposition.ApiServer.Recorder
import ResourceComposition.Program

/-!
# The API server as a store

A world whose objects live in an API server: each call becomes a request, and the answer to the
request becomes the reply to the call. Events are published through a recorder, if there is one;
whether the server takes them does not matter to the caller.
-/

namespace ResourceComposition

/-- The way to a server: the answer to each request, and what becomes of the state of the world
beyond. -/
structure Transport (σ : Type) where
  /-- The answer to a request and the state after it. -/
  send : HttpRequest → σ → HttpAnswer × σ

namespace Call

/-- The request that a call to the store makes. Publishing an event makes none of this kind. -/
def httpRequest? : Call → Except Error (Option HttpRequest)
  | .get reference => return some (.readAt (← (Resource.ofReference reference).location))
  | .create object dryRun => return some (.createIn (← object.collection) dryRun object)
  | .update object => return some (.replaceAt (← object.location) object)
  | .patch object change => return some (.patchAt (← object.location) change)
  | .patchStatus object change => return some (.patchStatusAt (← object.location) change)
  | .delete object => return some (.deleteAt (← object.location))
  | .publish _ _ _ => return none

/-- The report that a server may give in place of an object that it has deleted. Nothing is made of
its parts, but they have to have the right form. -/
def decodeReport : Decoder Unit :=
  let text (name : String) := Decode.given name Decode.string
  let cause := Decode.record "struct StatusCause" .listed
    (text "reason" <* text "message" <* text "field")
  let details := Decode.record "struct StatusDetails" .listed
    (text "name" <* text "group" <* text "kind" <* text "uid" <*
      Decode.given "causes" (Decode.list cause) <*
      Decode.given "retryAfterSeconds" (Decode.intWithin 0 (Nat.pow 2 32 - 1) "u32"))
  Decode.record "struct Status" .listed <|
    pure () <* Decode.optional "status" (Decode.variant [("Success", ()), ("Failure", ())]) <*
      Decode.given "code" HttpAnswer.decodeCode <* text "message" <* text "reason" <*
      Decode.optional "details" details

/-- What a server says when it has deleted an object: a report, or the object. -/
def readDeletion (text : String) : Except Json.SyntaxError Unit := do
  let value ← Json.parse text
  if value.field? "kind" = some (.string "Status") then decodeReport.read text
  else (Resource.decode.read text).map fun _ => ()

/-- The reply that an answer stands for. Reading an object that the server does not find is a
success without an object, and deleting it is a success. -/
def replyOf (answer : HttpAnswer) : (request : Call) → request.Reply
  | .get _ =>
    match answer.granted Resource.decode.read with
    | .error (.api refusal) =>
      if refusal.reason = "NotFound" then .ok none else .error (.api refusal)
    | .error e => .error e
    | .ok object => .ok (some object)
  | .create _ _ | .update _ | .patch _ _ | .patchStatus _ _ =>
    answer.granted Resource.decode.read
  | .delete _ =>
    match answer.granted readDeletion with
    | .error e => if e.isNotFound then .ok () else .error e
    | .ok () => .ok ()
  | .publish _ _ _ => ()

end Call

namespace Transport

variable {σ : Type}

/-- Send a request, if it can be sent, and get the answer. -/
def exchange (transport : Transport σ) (request : HttpRequest) (wire : σ) :
    Except AddressFault (HttpAnswer × σ) :=
  return transport.send (← request.sent) wire

/-- Publish an event through a recorder. -/
def publish (transport : Transport σ) (now : Instant) (about : Reference) (event : Event)
    (action : String) (recorder : Recorder) (wire : σ) : Recorder × σ :=
  let record := recorder.recordOf now about event action
  match transport.exchange record.request wire with
  | .error _ => (recorder, wire)
  | .ok (answer, after) => (recorder.afterAnswer record answer, after)

/-- Make a call to the store. -/
def call (transport : Transport σ) (request : Call) (wire : σ) : request.Reply × σ :=
  match request.httpRequest? with
  | .error cause => (request.refused cause, wire)
  | .ok none => (request.replyOf ⟨200, ""⟩, wire)
  | .ok (some made) =>
    match transport.exchange made wire with
    | .error fault => (request.refused (.request fault), wire)
    | .ok (answer, after) => (request.replyOf answer, after)

/-- The world behind a transport. Without a recorder events go nowhere. -/
def handler (transport : Transport σ) (now : Instant) : Handler (Option Recorder × σ) where
  reply
    | .publish about event action, (some recorder, wire) =>
      let (recorder, after) := transport.publish now about event action recorder wire
      ((), some recorder, after)
    | request, (recorder?, wire) =>
      let (reply, after) := transport.call request wire
      (reply, recorder?, after)

end Transport

end ResourceComposition
