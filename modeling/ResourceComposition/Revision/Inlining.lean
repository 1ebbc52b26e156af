import ResourceComposition.CompositionError

/-!
# Inlining patch sets

A patch of type `PatchSet` stands for all patches of the set it names. Inlining puts the patches
of the set in its place, so that what comes after sees patches that copy fields only. Sets do
not contain one another; of two sets with one name the later counts.
-/

namespace ResourceComposition

namespace PatchSet

/-- Whether a set contains a patch that stands for a set. -/
def isNested (s : PatchSet) : Bool := s.patches.any fun p => p.type = .patchSet

/-- The patches of the last set of a name. -/
def lookup? (sets : List PatchSet) (name : String) : Option (List Patch) :=
  (sets.reverse.find? fun s => s.name = name).map (·.patches)

end PatchSet

namespace Template

/-- The patches that one patch of the template stands for. -/
def expandPatch (sets : List PatchSet) (displayName : String) (p : Patch) :
    Except CompositionError (List Patch) :=
  if p.type = .patchSet then
    match p.patchSetName with
    | none => .error (.missingPatchSetName displayName)
    | some name =>
      match PatchSet.lookup? sets name with
      | none => .error (.undefinedPatchSet name)
      | some patches => .ok patches
  else .ok [p]

/-- The patches that a list of patches stands for. -/
def expandPatches (sets : List PatchSet) (displayName : String) :
    List Patch → Except CompositionError (List Patch)
  | [] => .ok []
  | p :: rest => do
    let patches ← expandPatch sets displayName p
    return patches ++ (← expandPatches sets displayName rest)

/-- The template at a place with its patches inlined. -/
def inlined (sets : List PatchSet) (place : Nat) (t : Template) :
    Except CompositionError Template := do
  return { t with patches := ← expandPatches sets (t.displayName place) t.patches }

/-- The templates from a place on with their patches inlined. -/
def inlinedFrom (sets : List PatchSet) : Nat → List Template →
    Except CompositionError (List Template)
  | _, [] => .ok []
  | place, t :: rest => do
    let first ← t.inlined sets place
    return first :: (← inlinedFrom sets (place + 1) rest)

end Template

namespace Revision

/-- The templates of a revision with all patch sets inlined. -/
def inlinedTemplates (r : Revision) : Except CompositionError (List Template) :=
  match r.patchSets.find? PatchSet.isNested with
  | some nested => .error (.nestedPatchSet nested.name)
  | none => Template.inlinedFrom r.patchSets 0 r.templates

end Revision

end ResourceComposition
