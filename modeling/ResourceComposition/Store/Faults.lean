import ResourceComposition.Program

/-!
# Stores that fail

A plan of faults makes a world fail at chosen calls. Each fault counts the calls it is about, and
is due for some of them; the first fault of the plan that is due takes the place of the world's
reply, and the world does not see the call.
-/

namespace ResourceComposition

/-- The kinds of store calls, as a fault names them. -/
inductive CallKind where
  /-- Reading. -/
  | get
  /-- Creating. -/
  | create
  /-- A dry run of creating. -/
  | dryRun
  /-- Replacing. -/
  | update
  /-- Patching. -/
  | patch
  /-- Patching the status. -/
  | patchStatus
  /-- Deleting. -/
  | delete
  deriving DecidableEq

namespace Call

/-- The kind of a store call. -/
def kind? : Call → Option CallKind
  | .get _ => some .get
  | .create _ dryRun => some (if dryRun then .dryRun else .create)
  | .update _ => some .update
  | .patch _ _ => some .patch
  | .patchStatus _ _ => some .patchStatus
  | .delete _ => some .delete
  | .publish _ _ _ => none

/-- What a call is about. -/
def subject : Call → Reference
  | .get reference => reference
  | .create object _ | .update object | .patch object _ | .patchStatus object _
  | .delete object => object.reference
  | .publish about _ _ => about

end Call

/-- What takes the place of a reply. -/
inductive Substitute where
  /-- An error. -/
  | error (cause : Error)
  /-- An object, or none. -/
  | object (object? : Option Resource)

namespace Substitute

/-- The object that a call has to give; that none was given is an error. -/
def neededObject : Option Resource → Except Error Resource
  | some given => .ok given
  | none => .error (.internal Error.unknown .nothingReturned)

/-- The reply to a call. -/
def reply : Substitute → (request : Call) → request.Reply
  | .error cause, request => request.refused cause
  | .object object?, .get _ => .ok object?
  | .object object?, .create _ _ => neededObject object?
  | .object object?, .update _ => neededObject object?
  | .object object?, .patch _ _ => neededObject object?
  | .object object?, .patchStatus _ _ => neededObject object?
  | .object _, .delete _ => .ok ()
  | .object _, .publish _ _ _ => ()

end Substitute

/-- A fault of a plan. -/
structure PlannedFault where
  /-- The kind of calls it is about. -/
  call : CallKind
  /-- The kind of the object that the calls are about; none stands for any. -/
  kind : Option String := none
  /-- The name of that object; none stands for any. -/
  name : Option String := none
  /-- How many calls it lets pass first. -/
  skip : Nat := 0
  /-- How many calls it takes the place of. -/
  times : Nat := 1
  /-- What it puts in the place of the reply. -/
  substitute : Substitute
  /-- How many calls it has counted. -/
  counted : Nat := 0

namespace PlannedFault

/-- Whether a call is one that the fault is about. A reference that lacks a kind or a name has the
empty text there. -/
def isAbout (f : PlannedFault) (request : Call) : Bool :=
  request.kind? = some f.call ∧ (∀ kind ∈ f.kind, request.subject.kind.getD "" = kind) ∧
    ∀ name ∈ f.name, request.subject.name.getD "" = name

/-- Count a call if the fault is about it. -/
def count (request : Call) (f : PlannedFault) : PlannedFault :=
  if f.isAbout request then { f with counted := f.counted + 1 } else f

/-- Whether the fault is due for the call that it counted last. -/
def isDue (f : PlannedFault) : Bool := f.skip < f.counted ∧ f.counted ≤ f.skip + f.times

/-- What takes the place of the reply to a call, of which the plan before it was counted is
given. -/
def substitute? (plan : List PlannedFault) (request : Call) : Option Substitute :=
  ((plan.filter (·.isAbout request)).find? fun f => (f.count request).isDue).map (·.substitute)

end PlannedFault

/-- A world with a plan of faults. -/
def Handler.withFaults {σ : Type} (world : Handler σ) : Handler (List PlannedFault × σ) where
  reply request state :=
    let counted := state.1.map (PlannedFault.count request)
    match PlannedFault.substitute? state.1 request with
    | some substitute => (substitute.reply request, counted, state.2)
    | none =>
      let (reply, after) := world.reply request state.2
      (reply, counted, after)

end ResourceComposition
