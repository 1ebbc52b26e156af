import ResourceComposition.Composition.Attempt

/-!
# Applying resources

To apply a resource is to create it if it is not there and to patch it otherwise, so that what it
says holds afterwards. A resource without a name that the server can make up a name for is always
created. The result is the resource as the server has it.
-/

namespace ResourceComposition.Resource

/-- Create a resource. -/
def createStored (r : Resource) : Attempt Resource :=
  Attempt.asking (Attempt.create r false) (.store .create)

/-- Create a resource, or patch it if it is there. -/
def apply (r : Resource) : Attempt Resource :=
  if r.metadata.unnamed ∧ r.metadata.generateName.isSome then r.createStored
  else do
    match ← Attempt.asking (Attempt.get r.reference) (.store .get) with
    | none => r.createStored
    | some _ => Attempt.asking (Attempt.patch r r.encode) (.store .patch)

end ResourceComposition.Resource
