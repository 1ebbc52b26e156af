import ResourceComposition.Event
import ResourceComposition.Resource.Basic

/-!
# Programs that call the store

A composition talks to the world through a few calls: it reads and writes objects in a store, and
it publishes events. A program is a tree: either it is done, or it makes a call and goes on in a
way that hangs on the reply. What a program does is thereby laid open for every behaviour of the
store, and nothing else about the world can enter it.

`Program.run` runs a program against a store that is given as a function on states, and
`Handler.logged` is the store that keeps a record of its calls. `Program.Always` says that all
calls a program can make, whatever the replies, have some property.
-/

namespace ResourceComposition

/-- A call to the world. -/
inductive Call where
  /-- Read the object that a reference names. -/
  | get (reference : Reference)
  /-- Create an object. A dry run does all but store it. -/
  | create (object : Resource) (dryRun : Bool)
  /-- Replace an object. -/
  | update (object : Resource)
  /-- Apply a merge patch to an object. -/
  | patch (object : Resource) (patch : Json)
  /-- Apply a merge patch to the status of an object. -/
  | patchStatus (object : Resource) (patch : Json)
  /-- Delete an object; one that is gone counts as deleted. -/
  | delete (object : Resource)
  /-- Publish an event on what a reference names. -/
  | publish (about : Reference) (event : Event) (action : String)
  deriving DecidableEq

/-- The replies to a call. -/
abbrev Call.Reply : Call → Type
  | .get _ => Except Error (Option Resource)
  | .create _ _ | .update _ | .patch _ _ | .patchStatus _ _ => Except Error Resource
  | .delete _ => Except Error Unit
  | .publish _ _ _ => Unit

/-- The reply that refuses a call. Publishing an event is never refused. -/
def Call.refused (cause : Error) : (request : Call) → request.Reply
  | .get _ | .create _ _ | .update _ | .patch _ _ | .patchStatus _ _ | .delete _ => .error cause
  | .publish _ _ _ => ()

/-- A program that makes calls and ends in a result. -/
inductive Program (α : Type) where
  /-- The end. -/
  | done (result : α)
  /-- A call, and how the program goes on after the reply. -/
  | call (request : Call) (resume : request.Reply → Program α)

namespace Program

variable {α β : Type}

/-- One program after another. -/
def bind : Program α → (α → Program β) → Program β
  | .done result, next => next result
  | .call request resume, next => .call request fun reply => (resume reply).bind next

instance : Monad Program where
  pure := .done
  bind := bind

/-- The program that makes one call and ends in the reply. -/
def ask (request : Call) : Program request.Reply := .call request .done

end Program

/-- A world: how it replies to each call, and how the call changes it. -/
structure Handler (σ : Type) where
  /-- The reply to a call and the state after it. -/
  reply : (request : Call) → σ → request.Reply × σ

/-- A call with the reply that came. -/
structure Exchange where
  /-- The call. -/
  request : Call
  /-- The reply. -/
  reply : request.Reply

namespace Handler

/-- The same world with a record of all calls, in order. -/
def logged {σ : Type} (world : Handler σ) : Handler (σ × List Exchange) where
  reply request state :=
    let (reply, after) := world.reply request state.1
    (reply, after, state.2 ++ [⟨request, reply⟩])

end Handler

namespace Program

variable {α : Type}

/-- Run a program in a world. -/
def run {σ : Type} (world : Handler σ) : Program α → σ → α × σ
  | .done result, state => (result, state)
  | .call request resume, state =>
    let (reply, after) := world.reply request state
    (resume reply).run world after

/-- Whether all calls that a program can make have a property. -/
def Always (allowed : Call → Prop) : Program α → Prop
  | .done _ => True
  | .call request resume => allowed request ∧ ∀ reply, (resume reply).Always allowed

end Program

end ResourceComposition
