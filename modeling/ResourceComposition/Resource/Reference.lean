import ResourceComposition.Json.Decode

/-!
# References to resources

A reference names a resource by its type, its namespace and its name. Any part may be left out.
-/

namespace ResourceComposition

/-- The parts that identify a resource. -/
structure Reference where
  /-- The group and version of the type. -/
  apiVersion : Option String := none
  /-- A field of the resource, where only that is meant. -/
  fieldPath : Option String := none
  /-- The kind of the type. -/
  kind : Option String := none
  /-- The name. -/
  name : Option String := none
  /-- The namespace. -/
  ns : Option String := none
  /-- The version of the resource that is meant. -/
  resourceVersion : Option String := none
  /-- The unique identifier. -/
  uid : Option String := none
  deriving DecidableEq

namespace Reference

/-- The reference that a value stands for. -/
def decode : Decoder Reference :=
  let text (name : String) := Decode.optional name Decode.string
  Decode.record "ObjectReference" .plain <|
    Reference.mk <$> text "apiVersion" <*> text "fieldPath" <*> text "kind" <*> text "name" <*>
      text "namespace" <*> text "resourceVersion" <*> text "uid"

/-- The value of a reference; parts that are left out are not written. -/
def encode (r : Reference) : Json :=
  .ofPresent [
    ("apiVersion", r.apiVersion.map .string),
    ("fieldPath", r.fieldPath.map .string),
    ("kind", r.kind.map .string),
    ("name", r.name.map .string),
    ("namespace", r.ns.map .string),
    ("resourceVersion", r.resourceVersion.map .string),
    ("uid", r.uid.map .string)]

/-- The kind and the name, as messages show them. -/
def describe (r : Reference) : String := r.kind.getD "" ++ " " ++ r.name.getD ""

end Reference

end ResourceComposition
