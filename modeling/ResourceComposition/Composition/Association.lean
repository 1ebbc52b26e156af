import ResourceComposition.Composition.Attempt
import ResourceComposition.Resource.Roles

/-!
# Associating templates with resources

Before anything is rendered, each template is matched with the resource that was composed from it
before, so that a repeated composition works on the same resources.

If all templates have names, the match goes by the template name that each resource carries.
Resources that the composite controls and whose template is gone are deleted. If a template has no
name, or a resource carries none, the match goes by place: the first template with the first
reference, and so on.
-/

namespace ResourceComposition

/-- A template and the resource that was composed from it before. -/
structure Association where
  /-- The template. -/
  template : Template
  /-- The reference to the resource, if there is one. -/
  reference : Option Reference
  deriving DecidableEq

namespace Association

/-- Match templates with references by place. Templates without a counterpart get none, and
references without one are left out. -/
def byOrder : List Template → List Reference → List Association
  | [], _ => []
  | t :: templates, [] => ⟨t, none⟩ :: byOrder templates []
  | t :: templates, r :: references => ⟨t, some r⟩ :: byOrder templates references

/-- Give the reference to the template of a name; of two templates with one name to the later.
There is no result if no template has the name. -/
def bindName (name : String) (reference : Reference) : List Association → Option (List Association)
  | [] => none
  | a :: rest =>
    match bindName name reference rest with
    | some bound => some (a :: bound)
    | none =>
      if a.template.name = some name then some (⟨a.template, some reference⟩ :: rest) else none

/-- The references that a composite holds. -/
def heldReferences (composite : Resource) : Attempt (List Reference) :=
  .ofExcept (composite.resourceRefs.mapError (.resource composite.nameAny))

/-- Match the templates of a composite with its references by place. -/
def positional (composite : Resource) (templates : List Template) : Attempt (List Association) := do
  return byOrder templates (← heldReferences composite)

/-- Go through references and bind them by name. What is bound so far is given, and the match by
place that takes over when a resource carries no name. A resource of a template that is gone is
deleted if the composite controls it. -/
def collect (composite : Resource) (fallback : List Association) :
    List Reference → List Association → Attempt (List Association)
  | [], bound => return bound
  | reference :: rest, bound => do
    match ← Attempt.find reference (.getComposed reference.describe) with
    | none => collect composite fallback rest bound
    | some composed =>
      match composed.templateName? with
      | none => return fallback
      | some name =>
        match bindName name reference bound with
        | some more => collect composite fallback rest more
        | none =>
          if composite.controls composed then
            Attempt.asking (Attempt.delete composed) (.garbageCollect composed.nameAny)
            collect composite fallback rest bound
          else collect composite fallback rest bound

/-- Match the templates of a composite with the resources it refers to, by name where that is
possible, and delete what belongs to no template any more. -/
def byName (composite : Resource) (templates : List Template) : Attempt (List Association) :=
  if templates.any fun t => t.name.isNone then positional composite templates
  else do
    let references ← heldReferences composite
    collect composite (byOrder templates references) references (byOrder templates [])

end Association

end ResourceComposition
