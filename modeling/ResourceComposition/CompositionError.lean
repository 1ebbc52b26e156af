import ResourceComposition.Error
import ResourceComposition.Revision.Basic

/-!
# Errors of a composition

What can go wrong while the resources of a composite are composed. An error that ends a
composition is wrapped once in the stage in which it arose; below the stage lies the root, which
is the cause.
-/

namespace ResourceComposition

/-- The stages of a composition. -/
inductive Stage where
  /-- Patch sets are put in place of the patches that stand for them. -/
  | inline
  /-- Templates are matched with the resources composed before. -/
  | associate
  /-- The present state of a composed resource is read. -/
  | observe
  /-- A composed resource gets its identity. -/
  | renderComposed
  /-- The composite is patched from a composed resource. -/
  | renderComposite
  /-- A composed resource is created or patched. -/
  | apply
  /-- The connection secret of a composed resource is read. -/
  | fetchDetails
  /-- Connection details are taken from a composed resource. -/
  | extractDetails
  /-- A composed resource is checked for readiness. -/
  | readiness
  /-- The composite is written. -/
  | update
  deriving DecidableEq

/-- What a stage could not do. -/
def Stage.message : Stage → String
  | .inline => "cannot inline composition patch sets"
  | .associate => "cannot associate composed resources with composition resource templates"
  | .observe => "cannot observe composed resource"
  | .renderComposed => "cannot render composed resource"
  | .renderComposite => "cannot render composite resource"
  | .apply => "cannot apply composed resource"
  | .fetchDetails => "cannot fetch connection details"
  | .extractDetails =>
    "cannot extract composite resource connection details from composed resource"
  | .readiness => "cannot check whether composed resource is ready"
  | .update => "cannot update composite resource"

/-- The calls that the store may refuse, where a composition gives nothing but the call as the
context. -/
inductive StoreOperation where
  /-- Reading an object. -/
  | get
  /-- Creating an object. -/
  | create
  /-- Replacing an object. -/
  | update
  /-- Patching an object. -/
  | patch
  /-- Patching the status of an object. -/
  | patchStatus
  /-- An operation given in words. -/
  | named (name : String)
  deriving DecidableEq

/-- The words for an operation. -/
def StoreOperation.word : StoreOperation → String
  | .get => "get"
  | .create => "create"
  | .update => "update"
  | .patch => "patch"
  | .patchStatus => "patch status"
  | .named name => name

/-- Why the base of a template gives no resource. -/
inductive BaseFault where
  /-- The base is no object. -/
  | notObject
  /-- What comes out is no resource. -/
  | undecodable (cause : Error)
  /-- A fault reported in words. -/
  | reported (message : String)
  deriving DecidableEq

/-- The wording of a fault. -/
def BaseFault.message : BaseFault → String
  | .notObject => "base must be a JSON object"
  | .undecodable cause => cause.message
  | .reported message => message

/-- What is wrong with a connection detail. -/
inductive DetailFault where
  /-- Nothing says where the value comes from. -/
  | noSource
  /-- The key is missing. -/
  | noKey
  /-- The name is missing. -/
  | noName
  /-- The path is missing. -/
  | noPath
  /-- The value is missing. -/
  | noValue
  /-- The path cannot be followed. -/
  | unreadable (cause : FieldPath.Error)
  /-- A fault reported in words. -/
  | reported (message : String)
  deriving DecidableEq

/-- The wording of a fault. -/
def DetailFault.message : DetailFault → String
  | .noSource => "cannot infer connection detail type: no value, key, or field path set"
  | .noKey => "fromConnectionSecretKey is required"
  | .noName => "name is required"
  | .noPath => "fromFieldPath is required"
  | .noValue => "value is required"
  | .unreadable cause => cause.message
  | .reported message => message

/-- What is wrong with a readiness check. -/
inductive CheckFault where
  /-- The condition is missing. -/
  | noCondition
  /-- The path is missing. -/
  | noPath
  /-- The text is missing. -/
  | noString
  /-- The number is missing. -/
  | noInteger
  /-- The path cannot be followed. -/
  | unreadable (cause : FieldPath.Error)
  /-- A fault reported in words. -/
  | reported (message : String)
  deriving DecidableEq

/-- The wording of a fault. -/
def CheckFault.message : CheckFault → String
  | .noCondition => "matchCondition is required"
  | .noPath => "fieldPath is required"
  | .noString => "matchString is required"
  | .noInteger => "matchInteger is required"
  | .unreadable cause => cause.message
  | .reported message => message

/-- An error of a composition. -/
inductive CompositionError where
  /-- A template refers to a patch set that the revision does not have. -/
  | undefinedPatchSet (name : String)
  /-- A patch set contains a patch that stands for a set. -/
  | nestedPatchSet (name : String)
  /-- A patch that stands for a set does not name it. -/
  | missingPatchSetName (template : String)
  /-- A composed resource cannot be read. -/
  | getComposed (reference : String) (cause : Error)
  /-- A resource whose template is gone cannot be deleted. -/
  | garbageCollect (name : String) (cause : Error)
  /-- The base of a template gives no resource. -/
  | unmarshal (fault : BaseFault)
  /-- A composed resource would change its kind. -/
  | kindChanged (before after : String)
  /-- The composite does not say how the names of composed resources begin. -/
  | missingNamePrefix
  /-- The server allocates no name. -/
  | nameAllocation (cause : Error)
  /-- A composed resource has another controller. -/
  | controllerConflict (kind name : String) (ownerKind ownerName ownerUid : String)
  /-- A patch cannot be applied. -/
  | patch (place : Nat) (type : PatchType) (cause : Error)
  /-- A connection detail is not set up right, or cannot be read. -/
  | connectionDetail (place : Nat) (fault : DetailFault)
  /-- A readiness check is not set up right, or cannot be made. -/
  | readiness (place : Nat) (type : CheckType) (fault : CheckFault)
  /-- An object does not have the form it should. -/
  | resource (name : String) (cause : Error)
  /-- A call to the store fails. -/
  | store (operation : StoreOperation) (cause : Error)
  /-- An error that ended a stage. -/
  | inStage (stage : Stage) (cause : CompositionError)
  deriving DecidableEq

namespace CompositionError

/-- The wording of an error. -/
def message : CompositionError → String
  | .undefinedPatchSet name => "cannot find PatchSet by name " ++ name
  | .nestedPatchSet name =>
    "cannot define nested patch sets: patch set " ++ name ++ " contains a PatchSet patch"
  | .missingPatchSetName template =>
    "PatchSet patch in template " ++ template ++ " has no patchSetName"
  | .getComposed reference cause =>
    "cannot get composed resource " ++ reference ++ ": " ++ cause.message
  | .garbageCollect name cause =>
    "cannot garbage collect composed resource " ++ name ++ ": " ++ cause.message
  | .unmarshal fault => "cannot unmarshal base template: " ++ fault.message
  | .kindChanged before after =>
    "cannot change the kind of a composed resource from " ++ before ++ " to " ++ after ++
      " (composed resource kinds are immutable)"
  | .missingNamePrefix =>
    "composite resource is missing the tessera.dev/composite name prefix label"
  | .nameAllocation cause => "cannot generate a name for composed resource: " ++ cause.message
  | .controllerConflict kind name ownerKind ownerName ownerUid =>
    "cannot set controller reference: " ++ kind ++ " " ++ name ++ " is already controlled by " ++
      ownerKind ++ " " ++ ownerName ++ " (UID " ++ ownerUid ++ ")"
  | .patch place type cause =>
    "cannot apply the " ++ type.word ++ " patch at index " ++ toString place ++ ": " ++
      cause.message
  | .connectionDetail place fault =>
    "connection detail at index " ++ toString place ++ ": " ++ fault.message
  | .readiness place type fault =>
    "readiness check at index " ++ toString place ++ " (" ++ type.word ++ "): " ++ fault.message
  | .resource name cause => "cannot process resource " ++ name ++ ": " ++ cause.message
  | .store operation cause => "cannot " ++ operation.word ++ " object: " ++ cause.message
  | .inStage stage cause => stage.message ++ ": " ++ cause.message

/-- The stage that an error ended, if it did. -/
def stage? : CompositionError → Option Stage
  | .inStage stage _ => some stage
  | _ => none

/-- The cause, without the stages around it. -/
def root : CompositionError → CompositionError
  | .inStage _ cause => cause.root
  | cause => cause

/-- Whether the error is that a composed resource has another controller. Such a resource must
not be taken over, so the composition ends. -/
def isIdentityConflict (e : CompositionError) : Bool :=
  match e.root with
  | .controllerConflict .. => true
  | _ => false

/-- Whether another try may succeed: that hangs on the store alone. What is wrong with a template
or a composite stays wrong until it is changed. -/
def isRetryable : CompositionError → Bool
  | .inStage _ cause => cause.isRetryable
  | .getComposed _ cause | .garbageCollect _ cause | .nameAllocation cause | .store _ cause =>
    cause.isRetryable
  | .undefinedPatchSet _ | .nestedPatchSet _ | .missingPatchSetName _ | .unmarshal _
  | .kindChanged .. | .missingNamePrefix | .controllerConflict .. | .patch .. | .connectionDetail ..
  | .readiness .. | .resource .. => false

end CompositionError

end ResourceComposition
