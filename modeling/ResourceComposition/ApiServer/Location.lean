import ResourceComposition.ApiServer.Http
import ResourceComposition.ApiServer.ResourceType

/-!
# Where resources are found

The API server files resources in collections, one for each type and, for resources that have a
namespace, for each namespace. Within a collection a resource is found by its name. Every call to
the store turns into a request whose address is made from the location of the resource and nothing
else, so all calls about one resource go to one place.

Calls about a resource without a type or a name are not sent.
-/

namespace ResourceComposition

/-- The resources of one type, in one namespace if they have one. -/
structure Collection where
  /-- The type. -/
  type : ResourceType
  /-- The namespace. -/
  ns : Option String
  deriving DecidableEq

/-- The path to a collection. -/
def Collection.path (c : Collection) : String :=
  (if c.type.group.isEmpty then "/api/" else "/apis/") ++ c.type.apiVersion ++ "/" ++
    (match c.ns with
      | some ns => "namespaces/" ++ ns ++ "/"
      | none => "") ++
    c.type.plural

/-- Where one resource is found. -/
structure Location where
  /-- The collection that holds it. -/
  collection : Collection
  /-- Its name in the collection. -/
  name : String
  deriving DecidableEq

/-- The path to a resource. -/
def Location.path (l : Location) : String := l.collection.path ++ "/" ++ l.name

namespace Resource

/-- The collection that a resource belongs to; it has to have a type. -/
def collection (r : Resource) : Except Error Collection :=
  if r.apiVersion.isEmpty ∨ r.kind.isEmpty then
    .error (.validation (r.metadata.name.getD "") .untyped)
  else .ok ⟨.of r.apiVersion r.kind, r.metadata.ns.bind nonEmpty⟩

/-- The name of a resource; it has to have one. -/
def requiredName (r : Resource) : Except Error String :=
  match r.metadata.name.bind nonEmpty with
  | some name => .ok name
  | none => .error (.validation r.kind .unnamed)

/-- Where a resource is found. -/
def location (r : Resource) : Except Error Location := do
  let name ← r.requiredName
  return { collection := ← r.collection, name }

end Resource

namespace HttpRequest

/-- Who writes, in the eyes of the server. -/
def fieldManager : String := "tessera-composer"

/-- The end of the address of a request that writes. -/
def writing : String := "&fieldManager=" ++ fieldManager

/-- Read a resource. -/
def readAt (l : Location) : HttpRequest := { method := .get, address := l.path }

/-- Create a resource in a collection. -/
def createIn (c : Collection) (dryRun : Bool) (object : Resource) : HttpRequest :=
  { method := .post
    address := c.path ++ "?" ++ (if dryRun then "&dryRun=All" else "") ++ writing
    content := some (.json object.encode) }

/-- Replace a resource. -/
def replaceAt (l : Location) (object : Resource) : HttpRequest :=
  { method := .put, address := l.path ++ "?" ++ writing, content := some (.json object.encode) }

/-- Patch a resource. -/
def patchAt (l : Location) (patch : Json) : HttpRequest :=
  { method := .patch, address := l.path ++ "?" ++ writing, content := some (.mergePatch patch) }

/-- Patch the status of a resource. -/
def patchStatusAt (l : Location) (patch : Json) : HttpRequest :=
  { method := .patch
    address := l.path ++ "/status?" ++ writing
    content := some (.mergePatch patch) }

/-- Delete a resource. -/
def deleteAt (l : Location) : HttpRequest :=
  { method := .delete, address := l.path ++ "?", content := some (.json (.object [])) }

end HttpRequest

end ResourceComposition
