import ResourceComposition.Composition.Attempt
import ResourceComposition.Resource.Roles
import ResourceComposition.Revision.Patching

/-!
# Rendering composed resources

Rendering makes a composed resource what its template wants it to be. The base is laid over what
the resource was before, which keeps its kind, its name and its namespace. Labels and an annotation
say where it comes from, patches are applied, and the composite becomes its controller, unless it
has another.

A resource that has no name gets one from the server: a dry run of its creation tells the name that
the server would make up. Nothing is stored.
-/

namespace ResourceComposition

namespace Template

/-- The base of a template laid over a resource. -/
def laidOver (t : Template) (composed : Resource) : Except CompositionError Resource :=
  if t.base.isObject then
    (Resource.ofJson (composed.encode.overlay t.base)).mapError fun cause =>
      .unmarshal (.undecodable cause)
  else .error (.unmarshal .notObject)

/-- Give a resource the identity of the one it was before, and the marks that say which composite
and which template it belongs to. -/
def identify (t : Template) (labels : List (String × String)) (namePrefix : String)
    (before r : Resource) : Resource :=
  let metadata : Metadata :=
    { r.metadata with
      generateName := some (namePrefix ++ "-"), name := before.metadata.name, ns := before.metadata.ns }
  let labelled := labels.foldl (fun m label => m.setLabel label.1 label.2) metadata
  let marked := match t.name with
    | some name => labelled.setAnnotation Resource.templateAnnotation name
    | none => labelled
  { r with metadata := marked }

/-- Make a composite the controller of a resource, unless the resource has another. -/
def adopt (composite r : Resource) : Except CompositionError Resource :=
  let owner := composite.asController
  let adopted : Resource := { r with metadata := r.metadata.upsertOwner owner }
  match r.metadata.controller? with
  | some other =>
    if other.uid = owner.uid then .ok adopted
    else .error (.controllerConflict r.kind r.nameAny other.kind other.name other.uid)
  | none => .ok adopted

/-- The resource that a template makes of the one it was before, up to its name. -/
def prepare (t : Template) (environment : Json) (composite before : Resource) :
    Except CompositionError Resource := do
  let merged ← t.laidOver before
  if !before.kind.isEmpty && merged.kind != before.kind then
    throw (.kindChanged before.kind merged.kind)
  match composite.namePrefix? with
  | none => throw .missingNamePrefix
  | some namePrefix =>
    let identified := t.identify composite.identifyingLabels namePrefix before merged
    let patched ← Patch.applyToComposed t.patches composite environment identified
    adopt composite patched

/-- Give a resource without a name the one that the server would make up. -/
def allocateName (r : Resource) : Attempt Resource :=
  if r.metadata.unnamed then do
    let wouldBe ← Attempt.asking (Attempt.create r true) .nameAllocation
    match wouldBe.metadata.name.filter fun name => !name.isEmpty with
    | some name => return { r with metadata := { r.metadata with name := some name } }
    | none => throw (.nameAllocation (.internal "dry-run" .noNameAllocated))
  else return r

/-- The resource that a template makes of the one it was before. -/
def render (t : Template) (environment : Json) (composite before : Resource) : Attempt Resource := do
  allocateName (← Attempt.ofExcept (t.prepare environment composite before))

end Template

/-! ### Renderers -/

/-- The two resources that a template is rendered between. -/
structure Sides where
  /-- The composite. -/
  composite : Resource
  /-- The composed resource. -/
  composed : Resource

/-- A way to render a template with an environment. It may change both sides, also when it
fails. -/
abbrev Renderer : Type := Template → Json → ExceptT CompositionError (StateT Sides Program) Unit

namespace Renderer

/-- Render the composed resource; if that fails, nothing changes. -/
def composed : Renderer := fun template environment sides =>
  (template.render environment sides.composite sides.composed).run.bind fun
    | .ok composed => .done (.ok (), { sides with composed })
    | .error e => .done (.error e, sides)

/-- Render the composite from the composed resource; if that fails, nothing changes. -/
def composite : Renderer := fun template _ sides =>
  match Patch.applyToComposite template.patches sides.composed sides.composite with
  | .ok composite => .done (.ok (), { sides with composite })
  | .error e => .done (.error e, sides)

end Renderer

end ResourceComposition
