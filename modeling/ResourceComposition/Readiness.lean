import ResourceComposition.CompositionError

/-!
# Readiness of composed resources

A composed resource is ready when all checks of its template pass; without checks it is ready when
it says so itself. Checks are made in order and the first that does not pass settles the matter, so
what is wrong with a later check does not come to light. A field that is not there makes a check
fail, not end in error.
-/

namespace ResourceComposition

namespace ReadinessCheck

/-- Whether a value is there but holds nothing. -/
def isEmptyValue : Json → Bool
  | .null => true
  | .string s => s.isEmpty
  | .array items => items.isEmpty
  | .object fields => fields.isEmpty
  | .bool _ | .int _ | .float _ => false

/-- Whether a field has the value that the check asks for. -/
def accepts (c : ReadinessCheck) (value : Json) : Except CheckFault Bool :=
  match c.type with
  | .nonEmpty => .ok (!isEmptyValue value)
  | .matchString =>
    match c.matchString with
    | some wanted => .ok (value.string? = some wanted)
    | none => .error .noString
  | .matchInteger =>
    match c.matchInteger with
    | some wanted => .ok (value.int64? = some wanted)
    | none => .error .noInteger
  | .matchTrue => .ok (value.bool? = some true)
  | .matchFalse => .ok (value.bool? = some false)
  | .matchCondition | .none => .ok true

/-- Whether a resource passes a check that looks at a field of its JSON form. -/
def passesField (c : ReadinessCheck) (form : Json) : Except CheckFault Bool :=
  match c.fieldPath with
  | none => .error .noPath
  | some path =>
    match form.get? path with
    | .error cause => .error (.unreadable cause)
    | .ok none => .ok false
    | .ok (some value) => c.accepts value

/-- Whether a resource has the condition that a check asks for. -/
def passesCondition (c : ReadinessCheck) (r : Resource) : Except CheckFault Bool :=
  match c.matchCondition with
  | none => .error .noCondition
  | some wanted => .ok ((r.condition? wanted.type).any fun found => found.status = wanted.status)

/-- Whether a resource passes a check. -/
def passes (c : ReadinessCheck) (r : Resource) : Except CheckFault Bool :=
  match c.type with
  | .none => .ok true
  | .matchCondition => c.passesCondition r
  | _ => c.passesField r.encode

/-- Whether a resource passes the checks from a place on, up to the first that it fails. -/
def allPassFrom (r : Resource) : Nat → List ReadinessCheck → Except CompositionError Bool
  | _, [] => .ok true
  | place, c :: rest =>
    match c.passes r with
    | .error fault => .error (.readiness place c.type fault)
    | .ok false => .ok false
    | .ok true => allPassFrom r (place + 1) rest

end ReadinessCheck

/-- Whether a composed resource is ready by the checks of its template. -/
def Resource.readyBy (checks : List ReadinessCheck) (r : Resource) : Except CompositionError Bool :=
  if checks = [] then .ok r.isReady else ReadinessCheck.allPassFrom r 0 checks

end ResourceComposition
