import ResourceComposition.Composition.Application
import ResourceComposition.Composition.Association
import ResourceComposition.Composition.Rendering
import ResourceComposition.Connection.Extraction
import ResourceComposition.Connection.Fetching
import ResourceComposition.Readiness
import ResourceComposition.Revision.Inlining

/-!
# Composing resources

One composition goes through the templates of a revision twice. The first time each template is
rendered onto the resource it is associated with. A template that cannot be rendered is reported
and skipped, and the resource it had keeps its reference; but a resource that another controller
has ends the composition. Then the composite is written with references to all resources, before
any of them is created, so that no resource is ever without a reference. The second time each
rendered resource is applied, and its connection details and readiness are collected. In the end
the composite is written again, with its status.

The steps that may be done in different ways are collaborators of the composition.
-/

namespace ResourceComposition

/-- What to compose. -/
structure CompositionRequest where
  /-- The revision to compose from. -/
  revision : Revision
  /-- The data that patches may read besides the composite. -/
  environment : Json := .object []

/-- A resource that was composed. -/
structure ComposedResource where
  /-- The name of its template, empty if it has none. -/
  templateName : String
  /-- The resource as the server has it. -/
  object : Resource
  /-- Whether it is ready. -/
  ready : Bool

/-- The outcome of a composition. -/
structure Outcome where
  /-- The resources that were composed, in the order of their templates. -/
  composed : List ComposedResource
  /-- The connection details of all resources; of two with one name the later counts. -/
  connectionDetails : ConnectionDetails
  /-- The events to publish on the composite. -/
  events : List Event

/-- Whether all resources that were composed are ready. -/
def Outcome.allReady (o : Outcome) : Bool := o.composed.all (·.ready)

/-- The steps of a composition that may be done in different ways. -/
structure Collaborators where
  /-- Match templates with the resources composed before. -/
  associate : Resource → List Template → Attempt (List Association)
  /-- Render a composed resource. -/
  composedRenderer : Renderer
  /-- Render the composite from a composed resource. -/
  compositeRenderer : Renderer
  /-- Fetch what the connection secret of a composed resource holds. -/
  fetchDetails : Resource → Attempt ConnectionDetails
  /-- Take connection details from a composed resource. -/
  extractDetails :
    Resource → ConnectionDetails → List ConnectionDetail → Except CompositionError ConnectionDetails
  /-- Check whether a composed resource is ready. -/
  checkReadiness : Resource → List ReadinessCheck → Except CompositionError Bool

namespace Collaborators

/-- The usual steps: association by name, where that is possible. -/
def standard : Collaborators where
  associate := Association.byName
  composedRenderer := Renderer.composed
  compositeRenderer := Renderer.composite
  fetchDetails := Resource.fetchDetails
  extractDetails := Resource.extractDetails
  checkReadiness composed checks := composed.readyBy checks

/-- The usual steps, with association by place alone. -/
def positional : Collaborators := { standard with associate := Association.positional }

end Collaborators

/-- A step of a composition: it may change the composite, also when it fails. -/
abbrev Composing (α : Type) : Type := ExceptT CompositionError (StateT Resource Program) α

namespace Composing

variable {α : Type}

/-- A step that leaves the composite alone; its error ends the stage. -/
def during (stage : Stage) (attempt : Attempt α) : Composing α := fun composite =>
  attempt.run.bind fun
    | .ok result => .done (.ok result, composite)
    | .error e => .done (.error (.inStage stage e), composite)

/-- A step that renders between the composite and a composed resource. A failure is a result of
the step and does not end it. -/
def rendering (render : ExceptT CompositionError (StateT Sides Program) Unit)
    (composed : Resource) : Composing (Except CompositionError Resource) := fun composite =>
  (render.run ⟨composite, composed⟩).bind fun (result, sides) =>
    .done (.ok (result.map fun _ => sides.composed), sides.composite)

/-- Set the composite. -/
def setComposite (composite : Resource) : Composing Unit := fun _ => .done (.ok (), composite)

end Composing

namespace Composition

/-- The present state of a composed resource. Without a reference there is none; a resource that
is gone keeps the identity that its reference gives it, and will be created anew under its
name. -/
def observe : Option Reference → Attempt Resource
  | none => return {}
  | some reference => do
    match ← Attempt.find reference (.getComposed reference.describe) with
    | some composed => return composed
    | none => return .ofReference reference

/-- What became of an association. -/
inductive Rendition where
  /-- The resource was rendered. -/
  | rendered (composed : Resource)
  /-- The template was skipped. -/
  | skipped (cause : CompositionError)

/-- Render the template at a place onto the resource associated with it. -/
def renderOne (c : Collaborators) (environment : Json) (a : Association) : Composing Rendition := do
  let before ← Composing.during .observe (observe a.reference)
  match ← Composing.rendering (c.composedRenderer a.template environment) before with
  | .ok composed => return .rendered composed
  | .error e => if e.isIdentityConflict then throw (.inStage .renderComposed e) else return .skipped e

/-- Render the templates of all associations, first to last. -/
def renderAll (c : Collaborators) (environment : Json) :
    List Association → Composing (List (Association × Rendition))
  | [] => return []
  | a :: rest => do
    let rendition ← renderOne c environment a
    return (a, rendition) :: (← renderAll c environment rest)

/-- The reference to keep for an association: that of the rendered resource, or the one it had. -/
def keptReference : Association × Rendition → Option Reference
  | (_, .rendered composed) => some composed.reference
  | (a, .skipped _) => a.reference

/-- The report on a template that was skipped. -/
def warning (displayName : String) (cause : CompositionError) : Event :=
  .warning Event.cannotCompose ("cannot compose resource " ++ displayName ++ ": " ++ cause.message)

/-- The reports on the templates from a place on that were skipped. -/
def warnings : (place : Nat) → List (Association × Rendition) → List Event
  | _, [] => []
  | place, (_, .rendered _) :: rest => warnings (place + 1) rest
  | place, (a, .skipped cause) :: rest =>
    warning (a.template.displayName place) cause :: warnings (place + 1) rest

/-- The templates that were rendered, with their resources. -/
def renderedOnly : List (Association × Rendition) → List (Template × Resource)
  | [] => []
  | (a, .rendered composed) :: rest => (a.template, composed) :: renderedOnly rest
  | (_, .skipped _) :: rest => renderedOnly rest

/-- Write the composite. -/
def applyComposite : Composing Unit := do
  let composite : Resource ← get
  Composing.setComposite (← Composing.during .update composite.apply)

/-- Write the references to all composed resources into the composite, and the composite to the
store. -/
def persistReferences (references : List Reference) : Composing Unit := do
  let composite : Resource ← get
  let referring ← Composing.during .update (.ofExcept
    ((composite.setResourceRefs references).mapError (.resource composite.nameAny)))
  Composing.setComposite referring
  applyComposite

/-- Apply a rendered resource, and collect its connection details and its readiness. -/
def settleOne (c : Collaborators) (environment : Json) (template : Template) (composed : Resource) :
    Composing (ComposedResource × ConnectionDetails) := do
  match ← Composing.rendering (c.compositeRenderer template environment) composed with
  | .error e => throw (.inStage .renderComposite e)
  | .ok composed =>
    let object ← Composing.during .apply composed.apply
    let fetched ← Composing.during .fetchDetails (c.fetchDetails object)
    let details ← Composing.during .extractDetails
      (.ofExcept (c.extractDetails object fetched template.connectionDetails))
    let ready ← Composing.during .readiness
      (.ofExcept (c.checkReadiness object template.readinessChecks))
    return (⟨template.name.getD "", object, ready⟩, details)

/-- Apply all rendered resources, first to last. -/
def settleAll (c : Collaborators) (environment : Json) :
    List (Template × Resource) → Composing (List (ComposedResource × ConnectionDetails))
  | [] => return []
  | (template, composed) :: rest => do
    let settled ← settleOne c environment template composed
    return settled :: (← settleAll c environment rest)

/-- Write the composite, and then its status if writing the composite did not keep it. -/
def persistComposite : Composing Unit := do
  let rendered : Resource ← get
  applyComposite
  match rendered.body.get? "status" with
  | none => return ()
  | some status =>
    let stored : Resource ← get
    if (stored.body.get? "status").any (·.sameValue status) then return ()
    else
      Composing.setComposite (← Composing.during .update
        (Attempt.asking (Attempt.patchStatus stored (.object [("status", status)]))
          (.store .patchStatus)))

/-- Compose the resources of a composite. -/
def compose (c : Collaborators) (request : CompositionRequest) : Composing Outcome := do
  let templates ← Composing.during .inline (.ofExcept request.revision.inlinedTemplates)
  let composite : Resource ← get
  let associations ← Composing.during .associate (c.associate composite templates)
  let renditions ← renderAll c request.environment associations
  persistReferences (renditions.filterMap keptReference)
  let settled ← settleAll c request.environment (renderedOnly renditions)
  persistComposite
  return {
    composed := settled.map (·.1)
    connectionDetails := settled.foldl (fun details entry => details.insertAll entry.2) []
    events := warnings 0 renditions }

end Composition

end ResourceComposition
