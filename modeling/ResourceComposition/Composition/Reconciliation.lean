import ResourceComposition.Composition.Basic
import ResourceComposition.Connection.Publication

/-!
# Reconciling a composite

One pass composes the resources of a composite, publishes what happened, writes the connection
details of the composite to its secret, and says in the composite's `Ready` condition whether all
composed resources are ready. The answer is when to come back.
-/

namespace ResourceComposition

namespace Composition

/-- Seconds until a ready composite is looked at again. -/
def readyRequeue : Nat := 60

/-- Seconds until a composite that is not ready is looked at again. -/
def notReadyRequeue : Nat := 15

/-- Seconds until another try after an error that may pass. -/
def errorRequeue : Nat := 30

/-- When to try again after an error: never, unless the error may pass; then only a change of the
composite or its revision helps. -/
def errorPolicy (e : CompositionError) : Option Nat :=
  if e.isRetryable then some errorRequeue else none

/-- How a template is named in the list of resources that are not ready. -/
def pendingName (name : String) : String := if name.isEmpty then "(anonymous)" else name

/-- The condition that says whether all composed resources are ready, and which are not. -/
def readyCondition (o : Outcome) : Condition :=
  match o.composed.filter fun c => !c.ready with
  | [] => .available
  | pending =>
    .creating ("Unready resources: " ++
      ", ".intercalate (pending.map fun c => pendingName c.templateName))

/-- Publish events on a composite, first to last. -/
def publishAll (about : Reference) : List Event → Program Unit
  | [] => .done ()
  | event :: rest => (Attempt.publish about event).bind fun _ => publishAll about rest

/-- Publish the connection details of a composite, and an event on how that went. -/
def publishDetails (defaultNamespace : Option String) (composite : Resource) (o : Outcome) :
    Attempt Unit :=
  ExceptT.mk ((composite.publishDetails defaultNamespace o.connectionDetails).run.bind fun
    | .ok true =>
      (Attempt.publish composite.reference
        (.normal Event.publishedDetails "Successfully published connection details")).bind
        fun _ => .done (.ok ())
    | .ok false => .done (.ok ())
    | .error e =>
      (Attempt.publish composite.reference
        (.warning Event.cannotPublishDetails e.message)).bind fun _ => .done (.error e))

/-- Write the condition that says whether a composite is ready, if it says anything new. -/
def reportReadiness (now : Instant) (composite : Resource) (o : Outcome) : Attempt Unit := do
  let (changed, reported) ← Attempt.ofExcept
    ((composite.setCondition now (readyCondition o)).mapError (.resource composite.nameAny))
  if changed then
    let status := (reported.body.get? "status").getD .null
    let _ ← Attempt.asking (Attempt.patchStatus reported (.object [("status", status)]))
      (.store .patchStatus)

/-- Reconcile a composite. -/
def reconcile (c : Collaborators) (defaultNamespace : Option String) (now : Instant)
    (request : CompositionRequest) (composite : Resource) : Attempt Nat :=
  ExceptT.mk (((compose c request).run composite).bind fun
    | (.error e, _) =>
      (Attempt.publish composite.reference (.warning Event.cannotCompose e.message)).bind
        fun _ => .done (.error e)
    | (.ok outcome, composed) =>
      (publishAll composite.reference outcome.events).bind fun _ =>
        ExceptT.run (do
          publishDetails defaultNamespace composed outcome
          reportReadiness now composed outcome
          return if outcome.allReady then readyRequeue else notReadyRequeue))

end Composition

end ResourceComposition
