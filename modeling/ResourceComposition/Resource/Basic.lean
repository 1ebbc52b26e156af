import ResourceComposition.Error
import ResourceComposition.FieldPath.Access
import ResourceComposition.Json.Overlay
import ResourceComposition.Resource.Metadata
import ResourceComposition.Resource.Reference

/-!
# Resources

A resource is an object of the cluster of any type: its type, its metadata, and a body that is
kept as it is. A resource has a JSON form, which `decode` reads and `encode` writes. In the JSON
form a field of the body wins over a part of the type with the same name.

A resource whose type is incomplete has no type at all. The two parts of the type are looked at in
the order in which they stand, until one is no text or stands there a second time. What was looked
at does not come back in the body.
-/

namespace ResourceComposition

/-- The type of a resource. -/
structure TypeMeta where
  /-- The group and version. -/
  apiVersion : String
  /-- The kind. -/
  kind : String
  deriving DecidableEq

/-- An object of any type. -/
structure Resource where
  /-- The type, if it is known. -/
  typeMeta : Option TypeMeta := none
  /-- What the resource says about itself. -/
  metadata : Metadata := {}
  /-- All else. -/
  body : Dict Json := []
  deriving DecidableEq

namespace Resource

/-- Take the type out of the fields of a resource, some parts of it being found already. -/
def takeType : (apiVersion kind : Option String) → List (String × Json) →
    Option TypeMeta × List (String × Json)
  | some apiVersion, some kind, [] => (some ⟨apiVersion, kind⟩, [])
  | _, _, [] => (none, [])
  | apiVersion, kind, (name, value) :: rest =>
    if name = "apiVersion" then
      match apiVersion, value with
      | none, .string s => takeType (some s) kind rest
      | _, _ => (none, rest)
    else if name = "kind" then
      match kind, value with
      | none, .string s => takeType apiVersion (some s) rest
      | _, _ => (none, rest)
    else
      let (typeMeta, others) := takeType apiVersion kind rest
      (typeMeta, (name, value) :: others)

/-- The metadata that stands among the fields of a resource. -/
def decodeMetadata : Decoder Metadata :=
  Decode.record "struct DynamicObject" .openEnded (Decode.givenOr "metadata" {} Metadata.decode)

/-- The resource that a value stands for. -/
def decode : Decoder Resource where
  shape := decodeMetadata.shape
  meaning value := do
    let metadata ← decodeMetadata.meaning value
    let (typeMeta, others) := takeType none none (value.fields.erase "metadata")
    return { typeMeta, metadata, body := Dict.ofList others }

/-- The JSON form of a resource. -/
def encode (r : Resource) : Json :=
  let header : Dict Json := match r.typeMeta with
    | some type =>
      [("apiVersion", .string type.apiVersion), ("kind", .string type.kind),
        ("metadata", r.metadata.encode)]
    | none => [("metadata", r.metadata.encode)]
  .object (header.insertAll r.body)

/-- The resource that a value stands for, with the error of an operation otherwise. -/
def ofJson (value : Json) : Except Error Resource :=
  (decode value).mapError fun cause => .serialization cause

/-- The group and version of the type, empty if there is none. -/
def apiVersion (r : Resource) : String := (r.typeMeta.map (·.apiVersion)).getD ""

/-- The kind of the type, empty if there is none. -/
def kind (r : Resource) : String := (r.typeMeta.map (·.kind)).getD ""

/-- The name, else the beginning of the name to be made up, else nothing. -/
def nameAny (r : Resource) : String := r.metadata.nameAny

/-- A text, unless it is empty. -/
def nonEmpty (s : String) : Option String := if s.isEmpty then none else some s

/-- The reference to a resource. -/
def reference (r : Resource) : Reference :=
  { apiVersion := nonEmpty r.apiVersion, kind := nonEmpty r.kind,
    name := r.metadata.name, ns := r.metadata.ns }

/-- A placeholder that carries what a reference says about a resource. It has a type only if the
reference gives both parts of one. -/
def ofReference (r : Reference) : Resource :=
  { typeMeta := match r.apiVersion, r.kind with
      | some apiVersion, some kind => some ⟨apiVersion, kind⟩
      | _, _ => none
    metadata := { name := r.name, ns := r.ns } }

/-- The value in the body at a path, if there is one. -/
def get? (r : Resource) (path : String) : Except Error (Option Json) :=
  ((Json.object r.body).get? path).mapError .fieldPath

/-- Put a value into the body at a path. A path that can be written in a body begins with a
field, so the body stays an object. -/
def setField (r : Resource) (path : String) (new : Json) : Except Error Resource := do
  let body ← ((Json.object r.body).set path new).mapError .fieldPath
  return { r with body := body.fields }

/-- Put a value into the body at a path in place. -/
def setFieldInPlace (path : String) (new : Json) : ExceptT Error (StateM Resource) Unit := do
  let r ← get
  let (outcome, body) := (Json.object r.body).setInPlace path new
  set { r with body := body.fields }
  MonadExcept.ofExcept (outcome.mapError .fieldPath)

end Resource

end ResourceComposition
