import ResourceComposition.Json.Decode

/-!
# Metadata

What every resource says about itself next to its type: its name and namespace, its labels and
annotations, its owners, and what the server keeps track of. Parts that are null count as left
out, and parts that are not listed here are dropped.
-/

namespace ResourceComposition

/-- An owner of a resource. One owner at most should be its controller. -/
structure OwnerReference where
  /-- The group and version of the owner's type. -/
  apiVersion : String
  /-- Whether deleting the owner waits for the resource. -/
  blockOwnerDeletion : Option Bool := none
  /-- Whether the owner controls the resource. -/
  controller : Option Bool := none
  /-- The kind of the owner. -/
  kind : String
  /-- The name of the owner. -/
  name : String
  /-- The unique identifier of the owner. -/
  uid : String
  deriving DecidableEq

namespace OwnerReference

/-- The owner that a value stands for; a text that is left out is empty. -/
def decode : Decoder OwnerReference :=
  let text (name : String) := Decode.optionalOr name "" Decode.string
  let flag (name : String) := Decode.optional name Decode.bool
  Decode.record "OwnerReference" .plain <|
    OwnerReference.mk <$> text "apiVersion" <*> flag "blockOwnerDeletion" <*>
      flag "controller" <*> text "kind" <*> text "name" <*> text "uid"

/-- The value of an owner. -/
def encode (o : OwnerReference) : Json :=
  .ofPresent [
    ("apiVersion", some (.string o.apiVersion)),
    ("blockOwnerDeletion", o.blockOwnerDeletion.map .bool),
    ("controller", o.controller.map .bool),
    ("kind", some (.string o.kind)),
    ("name", some (.string o.name)),
    ("uid", some (.string o.uid))]

end OwnerReference

/-- The fields that one writer of a resource manages. -/
structure ManagedFields where
  /-- The version of the type that the fields belong to. -/
  apiVersion : Option String
  /-- The form of the list of fields. -/
  fieldsType : Option String
  /-- The list of fields. -/
  fieldsV1 : Option Json
  /-- The writer. -/
  manager : Option String
  /-- What the writer did. -/
  operation : Option String
  /-- The part of the resource that was written. -/
  subresource : Option String
  /-- When the fields were written, to the second. -/
  time : Option Instant
  deriving DecidableEq

namespace ManagedFields

/-- The managed fields that a value stands for. -/
def decode : Decoder ManagedFields :=
  let text (name : String) := Decode.optional name Decode.string
  Decode.record "ManagedFieldsEntry" .plain <|
    ManagedFields.mk <$> text "apiVersion" <*> text "fieldsType" <*>
      Decode.optional "fieldsV1" Decode.any <*> text "manager" <*> text "operation" <*>
      text "subresource" <*> Decode.optional "time" (Decode.instant.map Instant.wholeSecond)

/-- The value of managed fields. -/
def encode (m : ManagedFields) : Json :=
  .ofPresent [
    ("apiVersion", m.apiVersion.map .string),
    ("fieldsType", m.fieldsType.map .string),
    ("fieldsV1", m.fieldsV1),
    ("manager", m.manager.map .string),
    ("operation", m.operation.map .string),
    ("subresource", m.subresource.map .string),
    ("time", m.time.map fun t => .string t.render)]

end ManagedFields

/-- What a resource says about itself. -/
structure Metadata where
  /-- Notes by name. -/
  annotations : Option (Dict String) := none
  /-- When the resource was created, to the second. -/
  creationTimestamp : Option Instant := none
  /-- The time that deletion leaves the resource. -/
  deletionGracePeriodSeconds : Option Int := none
  /-- When the resource will be deleted, to the second. -/
  deletionTimestamp : Option Instant := none
  /-- What has to be done before the resource goes. -/
  finalizers : Option (List String) := none
  /-- The beginning of the name that the server makes up. -/
  generateName : Option String := none
  /-- How often the wanted state has changed. -/
  generation : Option Int := none
  /-- Marks by name. -/
  labels : Option (Dict String) := none
  /-- Who wrote which fields. -/
  managedFields : Option (List ManagedFields) := none
  /-- The name. -/
  name : Option String := none
  /-- The namespace; a resource without one belongs to the cluster. -/
  ns : Option String := none
  /-- The owners. -/
  ownerReferences : Option (List OwnerReference) := none
  /-- The version of the stored resource. -/
  resourceVersion : Option String := none
  /-- The address of the resource. -/
  selfLink : Option String := none
  /-- The unique identifier. -/
  uid : Option String := none
  deriving DecidableEq

namespace Metadata

/-- The metadata that a value stands for. -/
def decode : Decoder Metadata :=
  let text (name : String) := Decode.optional name Decode.string
  let texts (name : String) := Decode.optional name (Decode.dict Decode.string)
  let number (name : String) := Decode.optional name Decode.int64
  let time (name : String) := Decode.optional name (Decode.instant.map Instant.wholeSecond)
  Decode.record "ObjectMeta" .plain <|
    Metadata.mk <$> texts "annotations" <*> time "creationTimestamp" <*>
      number "deletionGracePeriodSeconds" <*> time "deletionTimestamp" <*>
      Decode.optional "finalizers" (Decode.list Decode.string) <*> text "generateName" <*>
      number "generation" <*> texts "labels" <*>
      Decode.optional "managedFields" (Decode.list ManagedFields.decode) <*> text "name" <*>
      text "namespace" <*>
      Decode.optional "ownerReferences" (Decode.list OwnerReference.decode) <*>
      text "resourceVersion" <*> text "selfLink" <*> text "uid"

/-- The value of texts by name. -/
def encodeTexts (texts : Dict String) : Json := .object (texts.mapValues .string)

/-- The value of metadata; parts that are left out are not written. -/
def encode (m : Metadata) : Json :=
  .ofPresent [
    ("annotations", m.annotations.map encodeTexts),
    ("creationTimestamp", m.creationTimestamp.map fun t => .string t.render),
    ("deletionGracePeriodSeconds", m.deletionGracePeriodSeconds.map .int),
    ("deletionTimestamp", m.deletionTimestamp.map fun t => .string t.render),
    ("finalizers", m.finalizers.map fun names => .array (names.map .string)),
    ("generateName", m.generateName.map .string),
    ("generation", m.generation.map .int),
    ("labels", m.labels.map encodeTexts),
    ("managedFields", m.managedFields.map fun entries => .array (entries.map ManagedFields.encode)),
    ("name", m.name.map .string),
    ("namespace", m.ns.map .string),
    ("ownerReferences", m.ownerReferences.map fun owners => .array (owners.map OwnerReference.encode)),
    ("resourceVersion", m.resourceVersion.map .string),
    ("selfLink", m.selfLink.map .string),
    ("uid", m.uid.map .string)]

/-- The name, else the beginning of the name to be made up, else nothing. -/
def nameAny (m : Metadata) : String := (m.name <|> m.generateName).getD ""

/-- Whether there is no name, or an empty one. -/
def unnamed (m : Metadata) : Bool := (m.name.getD "").isEmpty

/-- The value of a label. -/
def label? (m : Metadata) (key : String) : Option String := (m.labels.getD []).get? key

/-- The value of an annotation. -/
def annotation? (m : Metadata) (key : String) : Option String := (m.annotations.getD []).get? key

/-- Set a label. -/
def setLabel (key value : String) (m : Metadata) : Metadata :=
  { m with labels := some ((m.labels.getD []).insert key value) }

/-- Set an annotation. -/
def setAnnotation (key value : String) (m : Metadata) : Metadata :=
  { m with annotations := some ((m.annotations.getD []).insert key value) }

/-- The first owner that is marked as controller. -/
def controller? (m : Metadata) : Option OwnerReference :=
  (m.ownerReferences.getD []).find? fun owner => owner.controller = some true

/-- Put an owner in place of the first with its identifier, or after all others. -/
def upsertIn (owner : OwnerReference) : List OwnerReference → List OwnerReference
  | [] => [owner]
  | other :: rest => if other.uid = owner.uid then owner :: rest else other :: upsertIn owner rest

/-- Set an owner, in place of what was said of it before. -/
def upsertOwner (owner : OwnerReference) (m : Metadata) : Metadata :=
  { m with ownerReferences := some (upsertIn owner (m.ownerReferences.getD [])) }

end Metadata

end ResourceComposition
