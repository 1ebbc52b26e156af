import ResourceComposition.Resource.Basic

/-!
# Composites and composed resources

A composite is a resource that stands for others; the others are composed for it. The composite
names them in its spec and controls them as their owner. Labels say what belongs to a composite,
and an annotation says which template a composed resource comes from.
-/

namespace ResourceComposition

/-- Where a resource wants its connection details written. -/
structure SecretReference where
  /-- The name of the secret. -/
  name : String
  /-- The namespace of the secret. -/
  ns : Option String := none
  deriving DecidableEq

namespace SecretReference

/-- The reference that a value stands for. -/
def decode : Decoder SecretReference :=
  Decode.record "struct ConnectionSecretRef" .listed <|
    SecretReference.mk <$> Decode.required "name" Decode.string <*>
      Decode.optional "namespace" Decode.string

/-- The value of a reference. -/
def encode (r : SecretReference) : Json :=
  .ofPresent [("name", some (.string r.name)), ("namespace", r.ns.map .string)]

end SecretReference

namespace Resource

/-- The label with the beginning of the names of composed resources. -/
def prefixLabel : String := "tessera.dev/composite"

/-- The label with the name of the claim that the composite was made for. -/
def claimNameLabel : String := "tessera.dev/claim-name"

/-- The label with the namespace of that claim. -/
def claimNamespaceLabel : String := "tessera.dev/claim-namespace"

/-- The annotation with the name of the template that a resource comes from. -/
def templateAnnotation : String := "tessera.dev/composition-resource-name"

/-- Where a composite names its composed resources. -/
def referencesPath : String := "spec.resourceRefs"

/-- Where a resource says which secret its connection details go to. -/
def secretPath : String := "spec.writeConnectionSecretToRef"

/-- The secret that the connection details of a resource go to, if it wants one. -/
def secretReference? (r : Resource) : Except Error (Option SecretReference) := do
  match ← r.get? secretPath with
  | some value =>
    ((SecretReference.decode value).map some).mapError fun cause =>
      .serialization (.inField secretPath cause) (some r.kind)
  | none => return none

/-! ### Composites -/

/-- The beginning of the names of composed resources, if there is one that is not empty. -/
def namePrefix? (composite : Resource) : Option String :=
  (composite.metadata.label? prefixLabel).filter fun s => !s.isEmpty

/-- The labels that say which composite, and which claim, a composed resource belongs to. -/
def identifyingLabels (composite : Resource) : List (String × String) :=
  [prefixLabel, claimNameLabel, claimNamespaceLabel].filterMap fun key =>
    (composite.metadata.label? key).map (key, ·)

/-- The references to the composed resources, in order. -/
def resourceRefs (composite : Resource) : Except Error (List Reference) := do
  match ← composite.get? referencesPath with
  | some value =>
    (Decode.list Reference.decode value).mapError fun cause =>
      .validation composite.nameAny (.resourceRefs cause)
  | none => return []

/-- Set the references to the composed resources. -/
def setResourceRefs (references : List Reference) (composite : Resource) :
    Except Error Resource :=
  composite.setField referencesPath (.array (references.map Reference.encode))

/-- The unique identifier, empty if there is none. -/
def uid (r : Resource) : String := r.metadata.uid.getD ""

/-- The owner that a composite is as controller of another resource. -/
def asController (composite : Resource) : OwnerReference :=
  { apiVersion := composite.apiVersion
    blockOwnerDeletion := some true
    controller := some true
    kind := composite.kind
    name := composite.nameAny
    uid := composite.uid }

/-- Whether a composite controls a resource. A composite without an identifier controls
nothing. -/
def controls (composite r : Resource) : Bool :=
  r.metadata.controller?.any fun owner => !composite.uid.isEmpty && owner.uid = composite.uid

/-! ### Composed resources -/

/-- The name of the template that a resource comes from, if it says so. -/
def templateName? (composed : Resource) : Option String :=
  (composed.metadata.annotation? templateAnnotation).filter fun s => !s.isEmpty

end Resource

end ResourceComposition
