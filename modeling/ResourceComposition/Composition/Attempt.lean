import ResourceComposition.CompositionError
import ResourceComposition.Program

/-!
# Attempts

The steps of a composition are programs that may fail: an attempt ends in a result or in an error
of the composition.
-/

namespace ResourceComposition

/-- A program that ends in a result or in an error. -/
abbrev Attempt (α : Type) : Type := ExceptT CompositionError Program α

namespace Attempt

variable {α : Type}

/-- The attempt that has been settled already. -/
def ofExcept (result : Except CompositionError α) : Attempt α := ExceptT.mk (.done result)

/-- Make a call that may fail, and give its error a meaning in the composition. -/
def asking (program : Program (Except Error α)) (failure : Error → CompositionError) : Attempt α :=
  ExceptT.mk (program.bind fun reply => .done (reply.mapError failure))

/-- Read an object. -/
def get (reference : Reference) : Program (Except Error (Option Resource)) :=
  .ask (.get reference)

/-- Create an object, or see what would be created. -/
def create (object : Resource) (dryRun : Bool) : Program (Except Error Resource) :=
  .ask (.create object dryRun)

/-- Replace an object. -/
def update (object : Resource) : Program (Except Error Resource) := .ask (.update object)

/-- Patch an object. -/
def patch (object : Resource) (patch : Json) : Program (Except Error Resource) :=
  .ask (.patch object patch)

/-- Patch the status of an object. -/
def patchStatus (object : Resource) (patch : Json) : Program (Except Error Resource) :=
  .ask (.patchStatus object patch)

/-- Delete an object. -/
def delete (object : Resource) : Program (Except Error Unit) := .ask (.delete object)

/-- Publish an event. -/
def publish (about : Reference) (event : Event) : Program Unit :=
  .ask (.publish about event Event.composeAction)

/-- Read an object that may be gone; an answer that it was not found counts as none. -/
def find (reference : Reference) (failure : Error → CompositionError) :
    Attempt (Option Resource) :=
  asking ((get reference).bind fun
    | .error e => .done (if e.isNotFound then .ok none else .error e)
    | .ok object? => .done (.ok object?)) failure

end Attempt

end ResourceComposition
