import ResourceComposition.Connection.Basic

/-!
# Extracting connection details

The connection details that a template takes from its composed resource. Each says where its value
comes from, or leaves that to be seen from what it gives: a value, a key of the connection secret,
or the path of a field. A key or a field that is not there contributes nothing. Of two details with
one name the later counts.
-/

namespace ResourceComposition

/-- Where the value of a connection detail comes from, with all that is needed for it. -/
inductive DetailSource where
  /-- From a key of the connection secret. -/
  | secretKey (key : String)
  /-- From a field. -/
  | fieldPath (path : String)
  /-- The value itself. -/
  | value (text : String)
  deriving DecidableEq

namespace ConnectionDetail

/-- The type of a detail that does not say it. -/
def inferredType? (d : ConnectionDetail) : Option DetailType :=
  if d.value.isSome then some .fromValue
  else if d.fromConnectionSecretKey.isSome then some .fromSecretKey
  else if d.fromFieldPath.isSome then some .fromFieldPath
  else none

/-- Something that has to be there. -/
def needed {α : Type} (fault : DetailFault) : Option α → Except DetailFault α
  | some value => .ok value
  | none => .error fault

/-- The name of a detail and the source of its value. A detail from the connection secret may do
without a name of its own. -/
def resolve (d : ConnectionDetail) : Except DetailFault (String × DetailSource) := do
  match ← needed .noSource (d.type <|> d.inferredType?) with
  | .fromSecretKey =>
    let key ← needed .noKey d.fromConnectionSecretKey
    return (d.name.getD key, .secretKey key)
  | .fromFieldPath =>
    let name ← needed .noName d.name
    let path ← needed .noPath d.fromFieldPath
    return (name, .fieldPath path)
  | .fromValue =>
    let name ← needed .noName d.name
    let value ← needed .noValue d.value
    return (name, .value value)

/-- The bytes that a value gives: those of a text, or of the JSON text of anything else. -/
def bytesOf : Json → Bytes
  | .string s => Bytes.ofString s
  | value => Bytes.ofString value.render

/-- The bytes that a source gives, if there are any. -/
def read (form : Json) (fetched : ConnectionDetails) :
    DetailSource → Except DetailFault (Option Bytes)
  | .secretKey key => .ok (fetched.get? key)
  | .value text => .ok (some (Bytes.ofString text))
  | .fieldPath path =>
    match form.get? path with
    | .ok value? => .ok (value?.map bytesOf)
    | .error cause => .error (.unreadable cause)

/-- The name of a detail and its bytes, if there are any. -/
def extract (form : Json) (fetched : ConnectionDetails) (d : ConnectionDetail) :
    Except DetailFault (String × Option Bytes) := do
  let (name, source) ← d.resolve
  return (name, ← read form fetched source)

/-- Extract the details from a place on and add them to those found before. -/
def extractFrom (form : Json) (fetched : ConnectionDetails) :
    Nat → List ConnectionDetail → ConnectionDetails → Except CompositionError ConnectionDetails
  | _, [], found => .ok found
  | place, d :: rest, found =>
    match d.extract form fetched with
    | .error fault => .error (.connectionDetail place fault)
    | .ok (name, bytes?) => extractFrom form fetched (place + 1) rest (found.insert? name bytes?)

end ConnectionDetail

/-- The connection details that a template takes from its composed resource and from what the
connection secret of the resource holds. -/
def Resource.extractDetails (composed : Resource) (fetched : ConnectionDetails)
    (details : List ConnectionDetail) : Except CompositionError ConnectionDetails :=
  ConnectionDetail.extractFrom composed.encode fetched 0 details []

end ResourceComposition
