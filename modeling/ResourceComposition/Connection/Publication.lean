import ResourceComposition.Composition.Attempt
import ResourceComposition.Connection.Basic

/-!
# Publishing connection details

The connection details of a composite go to the secret that it names. The secret is written only
when it is not there or holds something else, so publishing the same details again changes nothing.
-/

namespace ResourceComposition

namespace Secret

/-- The type of secrets with connection details. -/
def connectionType : String := "connection.tessera.dev/v1"

/-- The secret with the connection details of a composite. -/
def holding (composite : Resource) (reference : Reference) (details : ConnectionDetails) :
    Resource :=
  { typeMeta := some ⟨apiVersion, kind⟩
    metadata :=
      { name := reference.name, ns := reference.ns
        ownerReferences := some [composite.asController] }
    body := [("data", details.encode), ("type", .string connectionType)] }

/-- The data of a secret; data that is not there, or null, is empty. -/
def data (secret : Resource) : Json :=
  match secret.body.get? "data" with
  | none | some .null => .object []
  | some data => data

/-- Whether two secrets hold the same data. -/
def sameData (s t : Resource) : Bool := (data s).sameValue (data t)

end Secret

namespace Resource

/-- Write connection details to the secret of a composite, if it names one. The namespace of the
secret is the one that is given with its name, or else that of the composite, or else the default
one. The answer says whether anything was written. -/
def publishDetails (defaultNamespace : Option String) (composite : Resource)
    (details : ConnectionDetails) : Attempt Bool := do
  match ← Attempt.ofExcept (composite.secretReference?.mapError (.resource composite.nameAny)) with
  | none => return false
  | some secret =>
    let reference := Secret.reference secret (composite.metadata.ns <|> defaultNamespace)
    let desired := Secret.holding composite reference details
    match ← Attempt.asking (Attempt.get reference) (.store .get) with
    | none =>
      let _ ← Attempt.asking (Attempt.create desired false) (.store .create)
      return true
    | some existing =>
      if Secret.sameData existing desired then return false
      else
        let versioned : Resource :=
          { desired with metadata :=
            { desired.metadata with resourceVersion := existing.metadata.resourceVersion } }
        let _ ← Attempt.asking (Attempt.update versioned) (.store .update)
        return true

end Resource

end ResourceComposition
