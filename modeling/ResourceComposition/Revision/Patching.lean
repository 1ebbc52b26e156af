import ResourceComposition.CompositionError

/-!
# Patching

A patch copies one field from one JSON form to another: from the composite or the environment to
a composed resource, or from a composed resource to the composite. All patches of one direction are
applied in order to the same form, which then has to be a resource again. If one fails, none takes
effect.
-/

namespace ResourceComposition

namespace Patch

/-- The error of the patch at a place. -/
def failure (p : Patch) (place : Nat) (cause : FieldPath.Error) : CompositionError :=
  .patch place p.type (.fieldPath cause)

/-- Copy the field of a patch from `source` to `target`. A field that is not there is passed over,
unless it is required. -/
def copyField (p : Patch) (place : Nat) (source target : Json) : Except CompositionError Json :=
  match p.fromFieldPath with
  | none => .error (p.failure place ⟨"", .sourceUnnamed⟩)
  | some path =>
    match source.get? path with
    | .error cause => .error (p.failure place cause)
    | .ok (some value) =>
      (target.set (p.toFieldPath.getD path) value).mapError (p.failure place)
    | .ok none =>
      if p.sourceRequired then .error (p.failure place ⟨path, .sourceMissing⟩) else .ok target

/-- Apply the patches from a place on that have a source; `source?` gives the form that a type of
patch copies from, if that type takes part. -/
def copyFields (source? : PatchType → Option Json) :
    (place : Nat) → List Patch → (target : Json) → Except CompositionError Json
  | _, [], target => .ok target
  | place, p :: rest, target =>
    match source? p.type with
    | some source => do
      let patched ← p.copyField place source target
      copyFields source? (place + 1) rest patched
    | none => copyFields source? (place + 1) rest target

/-- Apply the patches that have a source to a resource. Without any such patch the resource stays
as it is. -/
def applyTo (source? : PatchType → Option Json) (patches : List Patch) (r : Resource) :
    Except CompositionError Resource :=
  if patches.any fun p => (source? p.type).isSome then do
    let patched ← copyFields source? 0 patches r.encode
    (Resource.ofJson patched).mapError (.resource r.nameAny)
  else .ok r

/-- Apply the patches that have a source to a resource in place. They change its form, and the
resource changes only once all of them are applied and the form can be read. -/
def applyInPlace (source? : PatchType → Option Json) (patches : List Patch) :
    ExceptT CompositionError (StateM Resource) Unit := do
  if patches.any fun p => (source? p.type).isSome then
    let r ← get
    let patched ← MonadExcept.ofExcept (copyFields source? 0 patches r.encode)
    set (← MonadExcept.ofExcept ((Resource.ofJson patched).mapError (.resource r.nameAny)))

/-- Where patches that write to a composed resource copy from. -/
def composedSource (composite : Resource) (environment : Json) : PatchType → Option Json
  | .fromComposite => some composite.encode
  | .fromEnvironment => some environment
  | .toComposite | .patchSet => none

/-- Where patches that write to the composite copy from. -/
def compositeSource (composed : Resource) : PatchType → Option Json
  | .toComposite => some composed.encode
  | .fromComposite | .fromEnvironment | .patchSet => none

/-- Apply the patches that write to a composed resource. -/
def applyToComposed (patches : List Patch) (composite : Resource) (environment : Json)
    (composed : Resource) : Except CompositionError Resource :=
  applyTo (composedSource composite environment) patches composed

/-- Apply the patches that write to the composite. -/
def applyToComposite (patches : List Patch) (composed composite : Resource) :
    Except CompositionError Resource :=
  applyTo (compositeSource composed) patches composite

end Patch

end ResourceComposition
