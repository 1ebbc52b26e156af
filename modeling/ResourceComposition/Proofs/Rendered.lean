import ResourceComposition.Composition.Rendering
import ResourceComposition.Proofs.Slots
import ResourceComposition.Proofs.Writings

/-!
# What rendering makes of a resource

Rendering lays the base of a template over a resource, marks it, patches it and makes the composite
its controller. Whatever the base and the patches say, the type of the result is that of the base,
the name and the namespace are those from before, the annotation names the template, and the
controller is the composite. Patches can do no harm to this as long as they write outside of the
header of the form.
-/

namespace ResourceComposition

open Resource

/-! ### Patches that leave the header alone -/

/-- Metadata that say the same, as far as identity, annotations and owners go. -/
structure Metadata.Alike (m m' : Metadata) : Prop where
  /-- The name. -/
  name : m'.name = m.name
  /-- The beginning of a name that is to be made up. -/
  generateName : m'.generateName = m.generateName
  /-- The namespace. -/
  ns : m'.ns = m.ns
  /-- The unique identifier. -/
  uid : m'.uid = m.uid
  /-- The names of the annotations, in the order in which they stand. -/
  keys : (m'.annotations.getD []).map (·.1) = (m.annotations.getD []).map (·.1)
  /-- The annotations. -/
  note : ∀ key, m'.annotation? key = m.annotation? key
  /-- The owners. -/
  owners : m'.ownerReferences = m.ownerReferences

theorem Metadata.StandsIn.alike {m m' : Metadata} {value : Json} (h : m.StandsIn value)
    (h' : m'.StandsIn value) : m.Alike m' where
  name := h'.name.trans h.name.symm
  generateName := h'.generateName.trans h.generateName.symm
  ns := h'.ns.trans h.ns.symm
  uid := h'.uid.trans h.uid.symm
  keys := h'.keys.trans h.keys.symm
  note key := (h'.note key).trans (h.note key).symm
  owners := h'.owners.trans h.owners.symm

/-- What changes of a resource, if anything does, stands in certain fields of its body. -/
structure Resource.ChangedIn (fields : String → Prop) (r r' : Resource) : Prop where
  /-- The type is the same. -/
  type : r'.typeMeta = r.typeMeta
  /-- The metadata are the same as far as they matter. -/
  metadata : r.metadata.Alike r'.metadata
  /-- All other fields are the same. -/
  body : ∀ name ∉ headerNames, ¬ fields name → r'.body.get? name = r.body.get? name
  /-- A kind that was left over was there before. -/
  kind : ∀ value, r'.body.get? "kind" = some value → r.body.get? "kind" = some value

/-- What changes in the body leaves the identity alone. -/
theorem Identity.Of.changed {i : Identity} {fields : String → Prop} {r r' : Resource} (h : i.Of r)
    (hproper : r'.Proper) (hchanged : r.ChangedIn fields r') : i.Of r' where
  type := hchanged.type.trans h.type
  name := hchanged.metadata.name.trans h.name
  ns := hchanged.metadata.ns.trans h.ns
  proper := hproper
  kind value hvalue := h.kind value (hchanged.kind value hvalue)

/-- A kind that is left over in a form with the type of a resource was left over in the resource. -/
theorem Resource.StandsIn.kind_of_encode {r r' : Resource} {form value : Json} (h : r'.StandsIn form)
    (hproper : r.Proper) (hproper' : r'.Proper) (htype : r'.typeMeta = r.typeMeta)
    (hfield : form.field? "kind" = r.encode.field? "kind")
    (hvalue : r'.body.get? "kind" = some value) : r.body.get? "kind" = some value := by
  -- Only a resource without a type has a kind left over.
  have hnone : r.typeMeta = none := by
    cases hsome : r.typeMeta with
    | none => rfl
    | some type =>
      rw [hproper'.kind (by simp [htype, hsome])] at hvalue
      cases hvalue
  have hkind := h.kind value hvalue
  rwa [hfield, hproper.field?_kind, hnone, Option.map_none, Option.or_none] at hkind

namespace Patch

/-- Wherever a patch writes, it writes to certain fields, or below them. -/
def WritesWithin (fields : String → Prop) (p : Patch) : Prop :=
  ∀ path segments, p.fromFieldPath = some path →
    FieldPath.parse (p.toFieldPath.getD path) = .ok segments →
      ∃ field rest, segments = .field field :: rest ∧ fields field

/-- Wherever a patch writes, it writes to a field, or below it. -/
def WritesUnder (field : String) : Patch → Prop := WritesWithin (· = field)

variable {fields : String → Prop} {source? : PatchType → Option Json} {patches : List Patch}
  {p : Patch} {source target after : Json} {place : Nat}

/-- A value differs from another in certain fields at most, and its fields stay in order. -/
structure Writes (fields : String → Prop) (target after : Json) : Prop where
  /-- The fields stay in order. -/
  sorted : target.fields.Sorted → after.fields.Sorted
  /-- All other fields are the same. -/
  field : ∀ name, ¬ fields name → after.field? name = target.field? name

theorem Writes.refl (fields : String → Prop) (target : Json) : Writes fields target target :=
  ⟨id, fun _ _ => rfl⟩

theorem Writes.trans {middle : Json} (h : Writes fields target middle)
    (h' : Writes fields middle after) : Writes fields target after :=
  ⟨h'.sorted ∘ h.sorted, fun name hne => (h'.field name hne).trans (h.field name hne)⟩

theorem copyFields_writes
    (hp : ∀ p ∈ patches, (source? p.type).isSome → p.WritesWithin fields)
    (h : copyFields source? place patches target = .ok after) : Writes fields target after := by
  refine copyFields_keeps h (.refl fields target) ?_
  rintro p hmem source v path hsource ⟨origin, horigin, -, hparse⟩ form form' hform hwrite
  obtain ⟨field, rest, rfl, hfield⟩ := hp p hmem (by simp [hsource]) origin path horigin hparse
  exact hform.trans ⟨Json.write_field_sorted hwrite, fun name hne =>
    Json.write_field_ne hwrite fun heq => hne (heq ▸ hfield)⟩

/-- Patches that write to fields of the body leave all else as it is. -/
theorem applyTo_changedIn (fields : String → Prop) {r r' : Resource}
    (hfields : ∀ name ∈ headerNames, ¬ fields name)
    (hp : ∀ p ∈ patches, (source? p.type).isSome → p.WritesWithin fields) (hproper : r.Proper)
    (h : applyTo source? patches r = .ok r') : r'.Proper ∧ r.ChangedIn fields r' := by
  obtain ⟨patched, hpatched, hread⟩ | ⟨-, rfl⟩ := applyTo_eq_ok h
  · have hwrites := copyFields_writes hp hpatched
    have hheader (name : String) (hname : name ∈ headerNames) :
        patched.field? name = r.encode.field? name := hwrites.field name (hfields name hname)
    have htyping : patched.typing = r.encode.typing := by
      rw [Json.typing, Json.text?, Json.text?, hheader _ (by simp [headerNames]),
        hheader _ (by simp [headerNames])]
      rfl
    obtain ⟨htype, hproper', hstands⟩ := of_ofJson hread (hwrites.sorted r.encode_sorted)
    rw [htyping, hproper.typeMeta_encode] at htype
    have hmetadata := hstands.metadata
    rw [Json.metadata, hheader _ (by simp [headerNames]), ← Json.metadata] at hmetadata
    have hencode := hproper.standsIn_encode
    refine ⟨hproper', htype, hencode.metadata.alike hmetadata, fun name hname hne => ?_,
      fun value hvalue => ?_⟩
    · rw [hstands.body name hname, hencode.body name hname, hwrites.field name hne]
    · exact hstands.kind_of_encode hproper hproper' htype (hheader _ (by simp [headerNames])) hvalue
  · exact ⟨hproper, rfl, ⟨rfl, rfl, rfl, rfl, rfl, fun _ => rfl, rfl⟩, fun _ _ _ => rfl, fun _ => id⟩

end Patch

/-! ### The base of a template -/

/-- The base of a template makes resources of a type: it is an object with its fields in order,
and both parts of the type are texts in it. -/
structure Template.Makes (t : Template) (type : TypeMeta) : Prop where
  /-- The base is an object, and the fields of all its objects are in order. -/
  ordered : t.base.Ordered
  /-- The group and version. -/
  apiVersion : t.base.field? "apiVersion" = some (.string type.apiVersion)
  /-- The kind. -/
  kind : t.base.field? "kind" = some (.string type.kind)

/-- A field of an overlay of two objects. -/
theorem Json.field?_overlay (fields : Dict Json) {source : Json} (h : source.isObject = true)
    (hsorted : source.fields.Sorted) (name : String) :
    ((Json.object fields).overlay source).field? name =
      match source.field? name with
      | none => fields.get? name
      | some v => some (overlay ((fields.get? name).getD .null) v) := by
  cases source with
  | object source =>
    rw [overlay]
    exact get?_overlayFields hsorted
  | _ => cases h

theorem Json.sorted_overlay {target source : Json} (h : target.fields.Sorted)
    (hsource : source.Ordered) : (target.overlay source).fields.Sorted := by
  cases source with
  | object source =>
    cases target with
    | object fields => exact sorted_overlayFields h
    | _ => exact hsource.1
  | _ => exact Dict.sorted_nil

/-- Laying something over metadata keeps the annotations in order. -/
theorem Metadata.sorted_notes_overlay {value source : Json} (h : (notes value).Sorted)
    (hvalue : value.isObject = true) (hsource : source.Ordered) :
    (notes (value.overlay source)).Sorted := by
  by_cases hobject : source.isObject = true
  · obtain ⟨fields, rfl⟩ : ∃ fields, value = .object fields := by
      cases value <;> first | exact ⟨_, rfl⟩ | cases hvalue
    rw [notes, Json.field?_overlay fields hobject hsource.sorted]
    cases hnotes : source.field? "annotations" with
    | none => exact h
    | some top => exact Json.sorted_overlay h (hsource.field? hnotes)
  · have hnone : (value.overlay source).fields = [] := by
      cases source <;> first | rfl | exact absurd rfl hobject
    rw [notes, Json.field?, hnone]
    exact Dict.sorted_nil

namespace Template

variable {t : Template} {type : TypeMeta} {environment : Json} {composite before r r' : Resource}

/-- The metadata that the base of a template makes of some. -/
def overMetadata (t : Template) (m : Metadata) : Json :=
  match t.base.field? "metadata" with
  | none => m.encode
  | some top => m.encode.overlay top

theorem laidOver_spec (hbase : t.Makes type) (hbefore : before.Proper)
    (h : t.laidOver before = .ok r) :
    r.typeMeta = some type ∧ r.Proper ∧ r.metadata.StandsIn (t.overMetadata before.metadata) := by
  unfold laidOver at h
  split at h
  · next hobject =>
    have hfield := Json.field?_overlay before.encode.fields hobject
      hbase.ordered.sorted
    have htyping : (before.encode.overlay t.base).typing = type.typing := by
      have hapiVersion : (before.encode.overlay t.base).field? "apiVersion" =
          some (.string type.apiVersion) := (hfield _).trans (by rw [hbase.apiVersion]; rfl)
      have hkind : (before.encode.overlay t.base).field? "kind" = some (.string type.kind) :=
        (hfield _).trans (by rw [hbase.kind]; rfl)
      rw [Json.typing, Json.text?, Json.text?, hapiVersion, hkind]
      rfl
    have hmetadata : (before.encode.overlay t.base).metadata = t.overMetadata before.metadata := by
      have hencode : before.encode.field? "metadata" = some before.metadata.encode := by
        simp [field?_encode hbefore, hbefore.metadata]
      have htop := hfield "metadata"
      rw [show before.encode.fields.get? "metadata" = _ from hencode] at htop
      rw [Json.metadata, overMetadata, show (before.encode.overlay t.base).field? "metadata" = _
        from htop]
      cases t.base.field? "metadata" <;> rfl
    cases hread : ofJson (before.encode.overlay t.base) with
    | error e => simp [hread] at h
    | ok read =>
      obtain rfl : read = r := by simpa [hread] using h
      obtain ⟨htype, hproper, hstands⟩ :=
        of_ofJson hread (Json.sorted_overlay before.encode_sorted hbase.ordered)
      rw [htyping] at htype
      exact ⟨htype, hproper, hmetadata ▸ hstands.metadata⟩
  · cases h

theorem laidOver_notes (hbase : t.Makes type) (hbefore : before.Proper)
    (hnotes : (before.metadata.annotations.getD []).Sorted) (h : t.laidOver before = .ok r) :
    (r.metadata.annotations.getD []).Sorted := by
  obtain ⟨-, -, hstands⟩ := laidOver_spec hbase hbefore h
  have hencode := before.metadata.standsIn_encode
  have hbefore := (Dict.sorted_iff_keys hencode.keys).mp hnotes
  refine (Dict.sorted_iff_keys hstands.keys).mpr ?_
  unfold overMetadata
  cases htop : t.base.field? "metadata" with
  | none => exact hbefore
  | some top => exact Metadata.sorted_notes_overlay hbefore rfl (hbase.ordered.field? htop)

/-! ### Marks and owners -/

/-- Labels are set and nothing else. -/
theorem setLabels_spec (labels : List (String × String)) (m : Metadata) :
    ∃ labels', labels.foldl (fun m label => m.setLabel label.1 label.2) m =
      { m with labels := labels' } := by
  induction labels generalizing m with
  | nil => exact ⟨m.labels, rfl⟩
  | cons label rest ih =>
    obtain ⟨labels', h⟩ := ih (m.setLabel label.1 label.2)
    exact ⟨labels', h⟩

/-- A resource was given the identity of another and the marks of a template. -/
structure Identified (t : Template) (before r r' : Resource) : Prop where
  /-- The type stays. -/
  type : r'.typeMeta = r.typeMeta
  /-- The body stays. -/
  body : r'.body = r.body
  /-- The name is that of the other. -/
  name : r'.metadata.name = before.metadata.name
  /-- The namespace is that of the other. -/
  ns : r'.metadata.ns = before.metadata.ns
  /-- The owners stay. -/
  owners : r'.metadata.ownerReferences = r.metadata.ownerReferences
  /-- The annotation names the template, if it has a name. -/
  annotations : r'.metadata.annotations = (t.name.map fun name =>
    (r.metadata.annotations.getD []).insert templateAnnotation name).or r.metadata.annotations

theorem identify_spec (t : Template) (labels : List (String × String)) (namePrefix : String)
    (before r : Resource) : t.Identified before r (t.identify labels namePrefix before r) := by
  obtain ⟨labels', h⟩ := setLabels_spec labels
    { r.metadata with
      generateName := some (namePrefix ++ "-"), name := before.metadata.name,
      ns := before.metadata.ns }
  simp only [identify, h]
  cases hname : t.name <;> constructor <;> simp [Metadata.setAnnotation, hname]

/-- The owner that was put among others is the controller, if there was no other. -/
theorem find?_upsertIn {owner : OwnerReference} {owners : List OwnerReference}
    (hcontroller : owner.controller = some true)
    (h : ∀ other, owners.find? (fun owner => owner.controller = some true) = some other →
      other.uid = owner.uid) :
    (Metadata.upsertIn owner owners).find? (fun owner => owner.controller = some true) =
      some owner := by
  induction owners with
  | nil => simp [Metadata.upsertIn, hcontroller]
  | cons other rest ih =>
    rw [Metadata.upsertIn]
    split
    · simp [hcontroller]
    · next hne =>
      -- The first owner has another identifier, so it is no controller.
      by_cases hother : other.controller = some true
      · exact absurd (h other (by simp [hother])) hne
      · simp only [List.find?_cons, hother, decide_false] at h ⊢
        exact ih h

theorem adopt_spec (h : adopt composite r = .ok r') :
    r' = { r with metadata := r.metadata.upsertOwner composite.asController } ∧
      ControlledBy composite.uid r'.metadata.ownerReferences ∧
      ∀ other, r.metadata.controller? = some other → other.uid = composite.uid := by
  have hadopted : r' = { r with metadata := r.metadata.upsertOwner composite.asController } ∧
      ∀ other, r.metadata.controller? = some other → other.uid = composite.uid := by
    simp only [adopt] at h
    cases hother : r.metadata.controller? with
    | none => simpa [hother, eq_comm] using h
    | some other =>
      simp only [hother] at h
      split at h
      · next huid =>
        refine ⟨(Except.ok.inj h).symm, ?_⟩
        rintro _ ⟨⟩
        exact huid
      · cases h
  obtain ⟨rfl, hfree⟩ := hadopted
  exact ⟨rfl, ⟨composite.asController, find?_upsertIn rfl hfree, rfl⟩, hfree⟩

/-! ### Preparation -/

/-- What preparing makes of a resource, whatever the resource was before. -/
structure Prepared (t : Template) (type : TypeMeta) (composite before r : Resource) : Prop where
  /-- The type is that of the base. -/
  type : r.typeMeta = some type
  /-- The body leaves the header to its place. -/
  proper : r.Proper
  /-- The kind is as it was before, if there was one. -/
  kind : before.kind = "" ∨ before.kind = r.kind
  /-- The name is as it was before. -/
  name : r.metadata.name = before.metadata.name
  /-- The namespace is as it was before. -/
  ns : r.metadata.ns = before.metadata.ns
  /-- The annotation names the template, if it has a name. -/
  note : ∀ name, t.name = some name → r.metadata.annotation? templateAnnotation = some name
  /-- The annotations are in order, if they were before. -/
  notes : (before.metadata.annotations.getD []).Sorted → (r.metadata.annotations.getD []).Sorted
  /-- The composite is the controller. -/
  owned : ControlledBy composite.uid r.metadata.ownerReferences

/-- The steps of preparing a resource. -/
theorem prepare_eq_ok_iff : t.prepare environment composite before = .ok r ↔
    ∃ merged namePrefix patched, t.laidOver before = .ok merged ∧
      (before.kind = "" ∨ before.kind = merged.kind) ∧ composite.namePrefix? = some namePrefix ∧
      Patch.applyToComposed t.patches composite environment
        (t.identify composite.identifyingLabels namePrefix before merged) = .ok patched ∧
      adopt composite patched = .ok r := by
  have hkind (merged : Resource) : (!before.kind.isEmpty && merged.kind != before.kind) = true ↔
      ¬ (before.kind = "" ∨ before.kind = merged.kind) := by
    rw [Bool.and_eq_true, Bool.not_eq_true', bne_iff_ne, not_or, String.isEmpty_eq_false_iff]
    exact and_congr_right' (not_congr eq_comm)
  unfold prepare
  simp only [bind, Except.bind]
  constructor
  · intro h
    split at h
    · cases h
    · next merged hlaid =>
      split at h
      · cases h
      · next hkept =>
        rw [hkind, Decidable.not_not] at hkept
        split at h
        · cases h
        · next namePrefix hprefix =>
          split at h
          · cases h
          · next patched hpatched =>
            exact ⟨merged, namePrefix, patched, hlaid, hkept, hprefix, hpatched, h⟩
  · rintro ⟨merged, namePrefix, patched, hlaid, hkept, hprefix, hpatched, hadopt⟩
    have hnot : ¬ (!before.kind.isEmpty && merged.kind != before.kind) = true :=
      fun h => (hkind merged).mp h hkept
    simp only [hlaid, hprefix, hpatched]
    rw [if_neg hnot]
    exact hadopt

theorem prepare_eq_ok (h : t.prepare environment composite before = .ok r) :
    ∃ merged namePrefix patched, t.laidOver before = .ok merged ∧
      (before.kind = "" ∨ before.kind = merged.kind) ∧
      Patch.applyToComposed t.patches composite environment
        (t.identify composite.identifyingLabels namePrefix before merged) = .ok patched ∧
      adopt composite patched = .ok r := by
  obtain ⟨merged, namePrefix, patched, hlaid, hkind, -, hpatched, hadopt⟩ := prepare_eq_ok_iff.mp h
  exact ⟨merged, namePrefix, patched, hlaid, hkind, hpatched, hadopt⟩

theorem prepare_spec {fields : String → Prop} (hfields : ∀ name ∈ headerNames, ¬ fields name)
    (hbase : t.Makes type) (hbefore : before.Proper)
    (hpatches : ∀ p ∈ t.patches, p.type = .fromComposite ∨ p.type = .fromEnvironment →
      p.WritesWithin fields)
    (h : t.prepare environment composite before = .ok r) :
    t.Prepared type composite before r := by
  obtain ⟨merged, namePrefix, patched, hlaid, hkind, hpatched, hadopt⟩ := prepare_eq_ok h
  obtain ⟨htype, hproper, -⟩ := laidOver_spec hbase hbefore hlaid
  have hid := t.identify_spec composite.identifyingLabels namePrefix before merged
  obtain ⟨hproper', hchanged⟩ := Patch.applyTo_changedIn fields hfields
    (fun p hp hsource => hpatches p hp (by
      cases hptype : p.type <;> simp [Patch.composedSource, hptype] at hsource ⊢))
    (hproper.congr hid.type hid.body) hpatched
  obtain ⟨rfl, howned, -⟩ := adopt_spec hadopt
  exact {
    type := hchanged.type.trans (hid.type.trans htype)
    proper := hproper'.congr rfl rfl
    kind := by
      have hsame := hchanged.type.trans hid.type
      simp only [Resource.kind] at hkind ⊢
      rwa [hsame]
    name := hchanged.metadata.name.trans hid.name
    ns := hchanged.metadata.ns.trans hid.ns
    note := fun name hname => by
      refine (hchanged.metadata.note templateAnnotation).trans ?_
      simp [Metadata.annotation?, hid.annotations, hname]
    notes := fun hnotes => by
      refine (Dict.sorted_iff_keys hchanged.metadata.keys).mpr ?_
      have hmerged := laidOver_notes hbase hbefore hnotes hlaid
      rw [hid.annotations]
      cases t.name with
      | none => exact hmerged
      | some name => exact hmerged.insert
    owned := howned }

end Template

end ResourceComposition
