import ResourceComposition.Composition.Association
import ResourceComposition.Proofs.Completion

/-!
# Turns of matching by name

Matching by name goes through the references of a composite one after another. A turn reads the
resource behind a reference and binds it to the template that it names, deletes it, or passes it
over, unless the resource names no template: then all bindings are given up and the matching
ends. So what holds of the matching follows, by induction on the references, from what holds of a
turn.
-/

namespace ResourceComposition

namespace Association

variable {composite : Resource} {fallback bound : List Association} {reference : Reference}
  {rest : List Reference}

/-- What becomes of the bindings when the resource behind a reference has been looked at; none if
they are given up. -/
def turn (composite : Resource) (reference : Reference) (bound : List Association) :
    Attempt (Option (List Association)) := do
  match ← Attempt.find reference (.getComposed reference.describe) with
  | none => return some bound
  | some composed =>
    match composed.templateName? with
    | none => return none
    | some name =>
      match bindName name reference bound with
      | some more => return some more
      | none =>
        if composite.controls composed then
          Attempt.asking (Attempt.delete composed) (.garbageCollect composed.nameAny)
          return some bound
        else return some bound

/-- Matching by name is one turn after another. -/
theorem collect_cons : collect composite fallback (reference :: rest) bound =
    turn composite reference bound >>= fun
      | some more => collect composite fallback rest more
      | none => pure fallback := by
  rw [collect, turn, bind_assoc]
  refine congrArg (Attempt.find reference _ >>= ·) (funext fun object? => ?_)
  cases object? with
  | none => rfl
  | some composed =>
    dsimp only
    cases composed.templateName? with
    | none => rfl
    | some name =>
      dsimp only
      cases bindName name reference bound with
      | some more => rfl
      | none =>
        dsimp only
        split
        · rw [bind_assoc]
          rfl
        · rfl

end Association

end ResourceComposition
