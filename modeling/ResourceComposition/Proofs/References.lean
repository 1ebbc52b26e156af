import ResourceComposition.Proofs.Identity

/-!
# References in the spec of a composite

A composite names its composed resources in a list in its spec. `Json.Refers` says that the list
stands there as it was written, and `Json.Holds` that it is read from there; before anything was
written, no list is read as the empty one. Patching the stored form with a composite whose spec
refers to resources makes the form refer to the same.
-/

namespace ResourceComposition

theorem Reference.meaning_encode (r : Reference) : decode.meaning r.encode = some r := by
  have htext (o : Option String) (name : String) (fields : Dict Json)
      (h : fields.get? name = o.map .string) :
      (Decode.optional name Decode.string).meaning fields = some o :=
    Decode.optional_string_of_present h
  refine (Decode.meaning_record (by decide)).mpr ⟨_, rfl, ?_⟩
  simp only [Decode.meaning_seq, Decode.meaning_map]
  refine ⟨_, ⟨_, ⟨_, ⟨_, ⟨_, ⟨_, ⟨r.apiVersion, htext _ _ _ ?_, rfl⟩,
    r.fieldPath, htext _ _ _ ?_, rfl⟩, r.kind, htext _ _ _ ?_, rfl⟩, r.name, htext _ _ _ ?_, rfl⟩,
    r.ns, htext _ _ _ ?_, rfl⟩, r.resourceVersion, htext _ _ _ ?_, rfl⟩,
    r.uid, htext _ _ _ ?_, rfl⟩ <;>
    exact (Json.get?_present_cons ..).trans (by simp)

theorem Resource.parse_referencesPath :
    FieldPath.parse referencesPath = .ok [.field "spec", .field "resourceRefs"] := rfl

/-- The spec of a composite, in its form; null if there is none. -/
def Json.spec (form : Json) : Json := (form.field? "spec").getD .null

/-- The spec of a composite; null if there is none. -/
def Resource.spec (r : Resource) : Json := (r.body.get? "spec").getD .null

theorem Resource.StandsIn.spec {r : Resource} {form : Json} (h : r.StandsIn form) :
    r.spec = form.spec := by
  rw [Resource.spec, h.body "spec" (by simp [headerNames]), Json.spec]

namespace Json

/-- The references that are read from the spec of a composite, if that is possible. -/
def heldReferences? (spec : Json) : Option (List Reference) :=
  match spec.follow? [.field "resourceRefs"] with
  | .ok (some value) => (Decode.list Reference.decode).meaning value
  | .ok none => some []
  | .error _ => none

/-- The spec of a composite names resources, its fields being in order. -/
structure Holds (spec : Json) (references : List Reference) : Prop where
  /-- The fields of the spec are in order. -/
  sorted : spec.fields.Sorted
  /-- The references are read from it. -/
  held : spec.heldReferences? = some references

/-- The list of references stands in the spec of a composite. -/
structure Refers (spec : Json) (references : List Reference) : Prop where
  /-- The fields of the spec are in order. -/
  sorted : spec.fields.Sorted
  /-- The list of references. -/
  written : spec.field? "resourceRefs" = some (.array (references.map Reference.encode))

variable {spec form : Json} {references : List Reference}

theorem follow?_field
    (h : spec.field? "resourceRefs" = some (.array (references.map Reference.encode))) :
    spec.follow? [.field "resourceRefs"] =
      .ok (some (.array (references.map Reference.encode))) := by
  cases spec with
  | object fields =>
    rw [field?_object] at h
    simp [follow?, h, isNull]
  | _ => simp [field?, fields] at h

/-- The list of references is looked up in the spec. -/
theorem follow?_spec (fields : Dict Json) :
    (object fields).follow? [.field "spec", .field "resourceRefs"] =
      (object fields).spec.follow? [.field "resourceRefs"] := by
  rw [spec, field?_object]
  cases h : fields.get? "spec" with
  | none => simp [follow?, h]
  | some value => rw [follow?, h]; rfl

theorem Refers.holds (h : spec.Refers references) : spec.Holds references where
  sorted := h.sorted
  held := by
    rw [heldReferences?, follow?_field h.written]
    exact Decode.list_map Reference.meaning_encode references

/-- Only an object refers to anything. -/
theorem Refers.eq_object (h : spec.Refers references) : spec = .object spec.fields := by
  have := h.written
  cases spec <;> simp_all [field?, fields]

theorem Refers.get? (h : form.spec.Refers references) :
    form.get? Resource.referencesPath = .ok (some (.array (references.map Reference.encode))) := by
  cases form with
  | object fields =>
    simp only [Json.get?, Resource.parse_referencesPath, bind, Except.bind, follow?_spec,
      follow?_field h.written]
    rfl
  | _ => exact absurd h.written (by simp [spec, field?, Json.fields])

/-- Patching makes the form refer to what the patch refers to. -/
theorem Refers.merged {target patch : Json} (h : patch.Refers references)
    (htarget : target.fields.Sorted) : (target.mergePatch patch).Refers references := by
  rw [h.eq_object]
  refine ⟨sorted_mergePatch htarget, ?_⟩
  rw [field?_mergePatch target h.sorted, show patch.fields.get? "resourceRefs" = _ from h.written]
  rfl

theorem spec_versioned (form : Json) : (Memory.versioned form).spec = form.spec := by
  rw [spec, Memory.field?_versioned form (by decide), spec]

theorem spec_statusOnly (form patch : Json) :
    (form.mergePatch (Memory.statusOnly patch)).spec = form.spec := by
  rw [spec, Memory.field?_statusOnly form patch (by decide), spec]

theorem Refers.patched {c : Resource} (h : c.spec.Refers references) (hproper : c.Proper)
    (hform : form.spec.fields.Sorted) :
    (form.mergePatch (Memory.withoutStatus c.encode)).spec.Refers references := by
  have hspec : c.encode.field? "spec" = some c.spec := by
    have hwritten := h.written
    rw [← hproper.standsIn_encode.body "spec" (by simp [Resource.headerNames])]
    unfold Resource.spec at hwritten ⊢
    cases hget : c.body.get? "spec" with
    | none => simp [hget, field?, fields] at hwritten
    | some value => rfl
  have hmerged : (form.mergePatch (Memory.withoutStatus c.encode)).spec =
      form.spec.mergePatch c.spec := by
    rw [spec, Memory.field?_patched form c (by decide), hspec, h.eq_object]
    rfl
  rw [hmerged]
  exact h.merged hform

end Json

namespace Resource

variable {c : Resource} {references : List Reference}

/-- The references of a composite are those that its spec holds. -/
theorem resourceRefs_eq_ok :
    c.resourceRefs = .ok references ↔ c.spec.heldReferences? = some references := by
  have hspec : (Json.object c.body).spec = c.spec := rfl
  simp only [resourceRefs, get?, Json.get?, parse_referencesPath, bind, Except.bind,
    Json.follow?_spec, hspec, Json.heldReferences?]
  cases h : c.spec.follow? [.field "resourceRefs"] with
  | error fault => simp
  | ok value? =>
    cases value? with
    | none => simp [pure, Except.pure]
    | some value =>
      simp only [Except.mapError_ok, Decoder.decode]
      cases (Decode.list Reference.decode).meaning value <;> simp

/-- The references of a composite can be set if its spec holds any. -/
theorem setResourceRefs_eq_ok (h : c.spec.Holds references) (more : List Reference) :
    ∃ fields, c.setResourceRefs more =
      .ok { c with body := c.body.insert "spec" (.object fields) } ∧
        (Json.object fields).Refers more := by
  have hwrite : ∃ fields, Json.fieldsForWriting "resourceRefs" c.spec = .ok fields ∧
      fields.Sorted := by
    have hheld := h.held
    have hsorted := h.sorted
    cases hspec : c.spec with
    | null => exact ⟨[], rfl, Dict.sorted_nil⟩
    | object fields => exact ⟨fields, rfl, by rwa [hspec] at hsorted⟩
    | _ => simp [hspec, Json.heldReferences?, Json.follow?] at hheld
  obtain ⟨fields, hfields, hsorted⟩ := hwrite
  refine ⟨fields.insert "resourceRefs" (.array (more.map Reference.encode)), ?_, ?_⟩
  · have hwrite : Json.write (.array (more.map Reference.encode))
        [.field "spec", .field "resourceRefs"] (.object c.body) =
        .ok (.object (c.body.insert "spec" (.object
          (fields.insert "resourceRefs" (.array (more.map Reference.encode)))))) := by
      have hbody : Json.fieldsForWriting "spec" (.object c.body) = .ok c.body := rfl
      unfold spec at hfields
      simp [Json.write, hbody, hfields, bind, Except.bind, pure, Except.pure]
    simp [setResourceRefs, setField, Json.set, parse_referencesPath, bind, Except.bind, hwrite,
      Except.mapError_ok, pure, Except.pure, Json.fields]
  · exact ⟨hsorted.insert, Dict.get?_insert_self ..⟩

end Resource

end ResourceComposition
