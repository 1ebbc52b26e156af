import ResourceComposition.Resource.Condition

/-!
# Composition revisions

A revision is the recipe for the resources of a composite: a list of templates, one for each
composed resource, and sets of patches that several templates share. A template says what the
resource starts out as, which fields are copied to and from it, which connection details it
contributes, and when it counts as ready.
-/

namespace ResourceComposition

/-- The type of the composites that a revision is for. -/
structure TypeReference where
  /-- The group and version. -/
  apiVersion : String := ""
  /-- The kind. -/
  kind : String := ""
  deriving DecidableEq

/-! ### Patches -/

/-- From where to where a patch copies. -/
inductive PatchType where
  /-- From the composite to the composed resource. -/
  | fromComposite
  /-- From the environment to the composed resource. -/
  | fromEnvironment
  /-- From the composed resource to the composite. -/
  | toComposite
  /-- The patch stands for all patches of a set. -/
  | patchSet
  deriving DecidableEq

/-- Whether the field that a patch copies has to be there. -/
inductive SourcePolicy where
  /-- If it is not there, the patch does nothing. -/
  | optional
  /-- If it is not there, the patch fails. -/
  | required
  deriving DecidableEq

/-- A copy of one field. -/
structure Patch where
  /-- From where to where it copies. -/
  type : PatchType := .fromComposite
  /-- The path of the field that is copied. -/
  fromFieldPath : Option String := none
  /-- The path it is copied to; none stands for the path it is copied from. -/
  toFieldPath : Option String := none
  /-- The set that the patch stands for. -/
  patchSetName : Option String := none
  /-- Whether the field has to be there, if that is said. -/
  policy : Option SourcePolicy := none
  deriving DecidableEq

/-- Patches that templates share under a name. -/
structure PatchSet where
  /-- The name of the set. -/
  name : String
  /-- The patches of the set. -/
  patches : List Patch := []
  deriving DecidableEq

/-! ### Connection details -/

/-- Where the value of a connection detail comes from. -/
inductive DetailType where
  /-- From the connection secret of the composed resource. -/
  | fromSecretKey
  /-- From a field of the composed resource. -/
  | fromFieldPath
  /-- From the template itself. -/
  | fromValue
  deriving DecidableEq

/-- A connection detail that a composed resource contributes. -/
structure ConnectionDetail where
  /-- The name of the detail. -/
  name : Option String := none
  /-- Where its value comes from, if that is said. -/
  type : Option DetailType := none
  /-- The key in the connection secret. -/
  fromConnectionSecretKey : Option String := none
  /-- The path of the field. -/
  fromFieldPath : Option String := none
  /-- The value. -/
  value : Option String := none
  deriving DecidableEq

/-! ### Readiness checks -/

/-- What a readiness check asks for. -/
inductive CheckType where
  /-- A field is there and not empty. -/
  | nonEmpty
  /-- A field is a given text. -/
  | matchString
  /-- A field is a given whole number. -/
  | matchInteger
  /-- A field is true. -/
  | matchTrue
  /-- A field is false. -/
  | matchFalse
  /-- A condition has a given status. -/
  | matchCondition
  /-- Nothing. -/
  | none
  deriving DecidableEq

/-- The condition that a check asks for. -/
structure ConditionMatch where
  /-- The type of the condition. -/
  type : String
  /-- The status it must have. -/
  status : ConditionStatus
  deriving DecidableEq

/-- A check whether a composed resource is ready. -/
structure ReadinessCheck where
  /-- What the check asks for. -/
  type : CheckType := .nonEmpty
  /-- The path of the field. -/
  fieldPath : Option String := none
  /-- The text the field must be. -/
  matchString : Option String := none
  /-- The number the field must be. -/
  matchInteger : Option Int := none
  /-- The condition there must be. -/
  matchCondition : Option ConditionMatch := none
  deriving DecidableEq

/-! ### Templates -/

/-- The recipe for one composed resource. -/
structure Template where
  /-- The name, by which the resource is found again. -/
  name : Option String := none
  /-- What the resource starts out as. -/
  base : Json := .null
  /-- The fields copied to and from the resource. -/
  patches : List Patch := []
  /-- The connection details the resource contributes. -/
  connectionDetails : List ConnectionDetail := []
  /-- When the resource counts as ready. -/
  readinessChecks : List ReadinessCheck := []
  deriving DecidableEq

/-- The recipe for the resources of a composite. -/
structure Revision where
  /-- The type of the composites it is for. -/
  compositeTypeRef : TypeReference := {}
  /-- Patches that templates share. -/
  patchSets : List PatchSet := []
  /-- The templates, in order. -/
  templates : List Template := []
  /-- Where connection secrets of composites go. -/
  writeConnectionSecretsToNamespace : Option String := none
  /-- The number of the revision. -/
  number : Int := 0
  deriving DecidableEq

namespace PatchType

/-- The word for a type of patch. -/
def word : PatchType → String
  | .fromComposite => "FromCompositeFieldPath"
  | .fromEnvironment => "FromEnvironmentFieldPath"
  | .toComposite => "ToCompositeFieldPath"
  | .patchSet => "PatchSet"

/-- Whether a patch of the type writes to the composed resource. -/
def writesComposed : PatchType → Bool
  | .fromComposite | .fromEnvironment => true
  | .toComposite | .patchSet => false

end PatchType

/-- The word for a policy. -/
def SourcePolicy.word : SourcePolicy → String
  | .optional => "Optional"
  | .required => "Required"

/-- The word for a source of a detail. -/
def DetailType.word : DetailType → String
  | .fromSecretKey => "FromConnectionSecretKey"
  | .fromFieldPath => "FromFieldPath"
  | .fromValue => "FromValue"

/-- The word for a type of check. -/
def CheckType.word : CheckType → String
  | .nonEmpty => "NonEmpty"
  | .matchString => "MatchString"
  | .matchInteger => "MatchInteger"
  | .matchTrue => "MatchTrue"
  | .matchFalse => "MatchFalse"
  | .matchCondition => "MatchCondition"
  | .none => "None"

/-- Whether the field that a patch copies has to be there. -/
def Patch.sourceRequired (p : Patch) : Bool := p.policy = some .required

/-- The name of a template in messages; one without a name goes by its place. -/
def Template.displayName (t : Template) (place : Nat) : String :=
  t.name.getD ("resources[" ++ toString place ++ "]")

end ResourceComposition
