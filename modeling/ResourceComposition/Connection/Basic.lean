import ResourceComposition.CompositionError
import ResourceComposition.Resource.Roles

/-!
# Connection details

What one needs to use a resource, such as passwords and addresses: bytes by name. They are kept in
secrets, where they stand in base 64.
-/

namespace ResourceComposition

/-- Connection details by name. -/
abbrev ConnectionDetails : Type := Dict Bytes

/-- The secret data of connection details. -/
def ConnectionDetails.encode (details : ConnectionDetails) : Json :=
  .object (details.mapValues fun bytes => .string (Base64.encode bytes))

namespace Secret

/-- The group and version of secrets. -/
def apiVersion : String := "v1"

/-- The kind of secrets. -/
def kind : String := "Secret"

/-- The details in the data of a secret; a secret without data holds none. What a secret may hold
besides has to have the right form too. -/
def decodeDetails : Decoder ConnectionDetails :=
  Decode.record "Secret" .plain <|
    Decode.optionalOr "data" [] (Decode.dict Decode.bytes) <*
      Decode.given "apiVersion" (Decode.exactly apiVersion) <*
      Decode.optional "immutable" Decode.bool <*
      Decode.given "kind" (Decode.exactly kind) <*
      Decode.optional "metadata" Metadata.decode <*
      Decode.optional "stringData" (Decode.dict Decode.string) <*
      Decode.optional "type" Decode.string

/-- The reference to the secret that a resource asks for, in the namespace it gives or else in the
default one. -/
def reference (secret : SecretReference) (defaultNamespace : Option String) : Reference :=
  { apiVersion := some apiVersion, kind := some kind, name := some secret.name,
    ns := secret.ns <|> defaultNamespace }

end Secret

end ResourceComposition
