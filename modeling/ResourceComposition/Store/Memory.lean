import ResourceComposition.Program
import ResourceComposition.Text.Numeral

/-!
# A store in memory

A small store that behaves like an API server. Objects are kept in their JSON form under their type,
namespace and name. The server makes up names from a counter that never goes back, so no name is
given out twice, dry runs included. The status of an object is written only by calls that are for
the status. Each write counts up the version of the object.
-/

namespace ResourceComposition

/-- What tells stored objects apart. -/
structure ObjectKey where
  /-- The group and version. -/
  apiVersion : String
  /-- The kind. -/
  kind : String
  /-- The namespace, empty for objects of the cluster. -/
  ns : String
  /-- The name. -/
  name : String
  deriving DecidableEq

/-- The key that a reference stands for; a part that is left out is empty. -/
def Reference.key (r : Reference) : ObjectKey :=
  ⟨r.apiVersion.getD "", r.kind.getD "", r.ns.getD "", r.name.getD ""⟩

/-- The key of a resource. -/
def Resource.key (r : Resource) : ObjectKey := r.reference.key

/-- The state of a store. -/
structure Memory where
  /-- The stored objects. -/
  objects : List (ObjectKey × Json) := []
  /-- How many names were made up. -/
  allocated : Nat := 0

namespace Memory

/-- The refusal of a request about an object that is not there. -/
def notFound : Error := .api { message := "notfound", reason := "NotFound", code := 404 }

/-- The refusal to create an object that is there. -/
def alreadyExists : Error :=
  .api { message := "alreadyexists", reason := "AlreadyExists", code := 409 }

/-- The refusal of an object that can be given no name. -/
def invalid : Error := .api { message := "invalid", reason := "Invalid", code := 422 }

/-- The JSON form stored under a key. -/
def lookup? (m : Memory) (key : ObjectKey) : Option Json := m.objects.lookup key

/-- Store a JSON form under a key. -/
def put (key : ObjectKey) (form : Json) (m : Memory) : Memory :=
  { m with objects := (key, form) :: m.objects.filter fun entry => entry.1 ≠ key }

/-- Remove what is stored under a key. -/
def remove (key : ObjectKey) (m : Memory) : Memory :=
  { m with objects := m.objects.filter fun entry => entry.1 ≠ key }

/-- Store a resource. -/
def insert (r : Resource) (m : Memory) : Memory := m.put r.key r.encode

/-- Whether one list of texts comes before another, or is the same: the first place where they
differ decides. -/
def textsLE : List String → List String → Bool
  | [], _ => true
  | _ :: _, [] => false
  | a :: as, b :: bs => a < b || (a = b && textsLE as bs)

/-- Whether one key comes before another, or is the same: type first, then namespace and name. -/
def keyLE (a b : ObjectKey) : Bool :=
  textsLE [a.apiVersion, a.kind, a.ns, a.name] [b.apiVersion, b.kind, b.ns, b.name]

/-- The stored objects in order of their keys. -/
def listing (m : Memory) : List Json :=
  (m.objects.mergeSort fun a b => keyLE a.1 b.1).map (·.2)

/-- The stored object that a reference names. -/
def get (reference : Reference) (m : Memory) : Except Error (Option Resource) :=
  match m.lookup? reference.key with
  | some form => (Resource.ofJson form).map some
  | none => .ok none

/-- A number in at least five digits. -/
def counterText (n : Nat) : String :=
  let digits := Nat.toDigits 10 n
  String.ofList (List.replicate (5 - digits.length) '0' ++ digits)

/-- The object with a name, made up if it has none. -/
def named (object : Resource) (m : Memory) : Except Error Resource × Memory :=
  if object.metadata.unnamed then
    match object.metadata.generateName with
    | none => (.error invalid, m)
    | some beginning =>
      let count := m.allocated + 1
      let name := beginning ++ counterText count
      (.ok { object with metadata := { object.metadata with name := some name } },
        { m with allocated := count })
  else (.ok object, m)

/-- The object as it is stored when it is created. -/
def fresh (object : Resource) : Resource :=
  { object with metadata :=
    { object.metadata with
      uid := some ("uid-" ++ object.key.name), resourceVersion := some "1" } }

/-- Create an object; a dry run stores nothing. -/
def create (object : Resource) (dryRun : Bool) (m : Memory) : Except Error Resource × Memory :=
  match m.named object with
  | (.error e, after) => (.error e, after)
  | (.ok created, after) =>
    if dryRun then (.ok created, after)
    else if (after.lookup? created.key).isSome then (.error alreadyExists, after)
    else (.ok (fresh created), after.put created.key (fresh created).encode)

/-- The version after that of a stored form. A version that is no whole number of 64 bits counts as
zero, and zero comes after the greatest of them. -/
def nextVersion (form : Json) : String :=
  let version := ((form.field? "metadata").bind (·.field? "resourceVersion")).bind Json.string?
  let number := (version.bind fun s => Text.uint64? s.toList).getD 0
  toString (if number < Text.maxUInt64 then number + 1 else 0)

/-- A form with its version counted up. -/
def versioned (form : Json) : Json :=
  let metadata := ((form.field? "metadata").getD .null).fields
  let counted := metadata.insert "resourceVersion" (.string (nextVersion form))
  .object (form.fields.insert "metadata" (.object counted))

/-- Change the stored form of an object, and count up its version. -/
def write (object : Resource) (change : Json → Json) (m : Memory) :
    Except Error Resource × Memory :=
  match m.lookup? object.key with
  | none => (.error notFound, m)
  | some form =>
    let stored := versioned (change form)
    (Resource.ofJson stored, m.put object.key stored)

/-- The form of a new object in place of a stored one, whose status stays. -/
def replaceForm (object : Resource) (stored : Json) : Json :=
  .object (object.encode.fields.insert? "status" (stored.field? "status"))

/-- A patch without its status. -/
def withoutStatus : Json → Json
  | .object fields => .object (Dict.erase "status" fields)
  | patch => patch

/-- The status of a patch and nothing else. -/
def statusOnly (patch : Json) : Json := .object [("status", (patch.field? "status").getD .null)]

/-- The store as a world. Events leave no trace in it. -/
def handler : Handler Memory where
  reply request m :=
    match request with
    | .get reference => (m.get reference, m)
    | .create object dryRun => m.create object dryRun
    | .update object => m.write object (replaceForm object)
    | .patch object patch => m.write object (·.mergePatch (withoutStatus patch))
    | .patchStatus object patch => m.write object (·.mergePatch (statusOnly patch))
    | .delete object => (.ok (), m.remove object.key)
    | .publish _ _ _ => ((), m)

end Memory

end ResourceComposition
