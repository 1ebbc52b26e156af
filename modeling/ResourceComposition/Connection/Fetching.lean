import ResourceComposition.Composition.Attempt
import ResourceComposition.Connection.Basic

/-!
# Fetching connection details

A composed resource says which secret its connection details are in. A secret that does not exist
yet holds none, and so does a resource that names no secret.
-/

namespace ResourceComposition.Resource

/-- The connection details in the secret of a composed resource. -/
def fetchDetails (composed : Resource) : Attempt ConnectionDetails := do
  match ← Attempt.ofExcept (composed.secretReference?.mapError (.resource composed.nameAny)) with
  | none => return []
  | some secret =>
    let reference := Secret.reference secret composed.metadata.ns
    match ← Attempt.find reference (.store .get) with
    | none => return []
    | some stored =>
      Attempt.ofExcept ((Secret.decodeDetails stored.encode).mapError fun cause =>
        .resource stored.nameAny (.serialization cause))

end ResourceComposition.Resource
