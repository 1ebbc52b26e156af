import ResourceComposition.Json.Basic

/-!
# Laying one value over another

Two ways to combine values. They agree on objects, which are combined field by field, and differ
in what a null does. In an overlay a null is a value like any other. In a merge patch it removes
the field, and what a patch puts in holds no nulls from the patch.
-/

namespace ResourceComposition.Json

mutual

/-- Lay `source` over `target`: objects field by field, anything else in place of what was there. -/
def overlay (target : Json) : (source : Json) → Json
  | .object source =>
    match target with
    | .object fields => .object (overlayFields fields source)
    | _ => .object source
  | source => source

/-- Lay fields over fields, first to last. -/
def overlayFields (target : Dict Json) : (source : List (String × Json)) → Dict Json
  | [] => target
  | (name, value) :: rest =>
    overlayFields
      (Dict.insert name (overlay ((Dict.get? target name).getD .null) value) target) rest

end

mutual

/-- Apply a merge patch: the fields of an object are patched one by one, a null removes a field,
and anything but an object takes the place of what was there. -/
def mergePatch (target : Json) : (patch : Json) → Json
  | .object patch => .object (mergePatchFields target.fields patch)
  | patch => patch

/-- Apply the fields of a merge patch, first to last. -/
def mergePatchFields (target : Dict Json) : (patch : List (String × Json)) → Dict Json
  | [] => target
  | (name, .null) :: rest => mergePatchFields (Dict.erase name target) rest
  | (name, value) :: rest =>
    mergePatchFields
      (Dict.insert name (mergePatch ((Dict.get? target name).getD .null) value) target) rest

end

end ResourceComposition.Json
