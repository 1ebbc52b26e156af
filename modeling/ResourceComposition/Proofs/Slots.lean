import ResourceComposition.Proofs.References

/-!
# Slots of a composite

A composite keeps one resource for each template. A slot is the place of such a resource: the
template, and the identity that the resource has from the moment its name is made up. `Slot.On`
says that a form is that of the resource of a slot: it has the identity, carries the name of the
template, and has the composite as its controller. `Owner.On` says that a form is that of the
composite itself.
-/

namespace ResourceComposition

open Resource

/-- The owners of a resource name one with an identifier as the controller. -/
def ControlledBy (uid : String) (owners : Option (List OwnerReference)) : Prop :=
  ∃ owner, ((owners.getD []).find? fun owner => owner.controller = some true) = some owner ∧
    owner.uid = uid

theorem controls_iff {composite r : Resource} {uid : String} (huid : composite.uid = uid)
    (hne : uid ≠ "") :
    composite.controls r = true ↔ ControlledBy uid r.metadata.ownerReferences := by
  unfold ControlledBy Resource.controls Metadata.controller?
  cases (r.metadata.ownerReferences.getD []).find? fun owner => owner.controller = some true <;>
    simp [huid, hne]

/-! ### Composed resources -/

/-- The place of a composed resource. -/
structure Slot where
  /-- The name of the template. -/
  template : String
  /-- The group and version of the resource. -/
  apiVersion : String
  /-- The kind of the resource. -/
  kind : String
  /-- The name of the resource. -/
  name : String
  /-- The template has a name. -/
  template_ne : template ≠ ""
  /-- The type is complete. -/
  apiVersion_ne : apiVersion ≠ ""
  /-- The type is complete. -/
  kind_ne : kind ≠ ""
  /-- The resource has a name. -/
  name_ne : name ≠ ""

namespace Slot

/-- The identity of the resource of a slot. -/
def identity (slot : Slot) : Identity := .full ⟨slot.apiVersion, slot.kind⟩ slot.name none

/-- The key that the resource of a slot is stored under. -/
def key (slot : Slot) : ObjectKey := slot.identity.key

/-- The reference to the resource of a slot. -/
def reference (slot : Slot) : Reference :=
  { apiVersion := some slot.apiVersion, kind := some slot.kind, name := some slot.name }

@[simp] theorem key_reference (slot : Slot) : slot.reference.key = slot.key := rfl

/-- A resource is that of a slot. -/
structure Of (slot : Slot) (uid : String) (r : Resource) : Prop extends slot.identity.Of r where
  /-- The name of the template. -/
  note : r.metadata.annotation? templateAnnotation = some slot.template
  /-- The annotations are in order. -/
  notes : (r.metadata.annotations.getD []).Sorted
  /-- The controller. -/
  owned : ControlledBy uid r.metadata.ownerReferences

/-- A form is that of the resource of a slot. -/
structure On (slot : Slot) (uid : String) (form : Json) : Prop extends slot.identity.On form where
  /-- The name of the template. -/
  note : (Metadata.notes form.metadata).get? templateAnnotation = some (.string slot.template)
  /-- The annotations are in order. -/
  notes : (Metadata.notes form.metadata).Sorted
  /-- The controller. -/
  owned : ControlledBy uid (Metadata.owners? form.metadata)

variable {slot : Slot} {uid : String} {r : Resource} {form : Json}

theorem Of.key (h : slot.Of uid r) : r.key = slot.key := h.toOf.key

theorem Of.typeMeta (h : slot.Of uid r) : r.typeMeta = some ⟨slot.apiVersion, slot.kind⟩ := h.type

theorem Of.named (h : slot.Of uid r) : r.metadata.unnamed = false := by
  simp [Metadata.unnamed, show r.metadata.name = some slot.name from h.name, slot.name_ne]

theorem Of.reference (h : slot.Of uid r) : r.reference = slot.reference := by
  have hne {s : String} (hs : s ≠ "") : nonEmpty s = some s := by simp [nonEmpty, hs]
  have hname : r.metadata.name = some slot.name := h.name
  have hns : r.metadata.ns = none := h.ns
  simp [Resource.reference, Slot.reference, Resource.apiVersion, Resource.kind, h.typeMeta, hname,
    hns, hne slot.apiVersion_ne, hne slot.kind_ne]

theorem Of.templateName (h : slot.Of uid r) : r.templateName? = some slot.template := by
  simp [templateName?, h.note, slot.template_ne]

theorem On.read (h : slot.On uid form) (hread : ofJson form = .ok r) : slot.Of uid r := by
  obtain ⟨hof, hstands⟩ := h.toOn.read hread
  exact { hof with
    note := by rw [hstands.metadata.note, h.note]; rfl
    notes := (Dict.sorted_iff_keys hstands.metadata.keys).mpr h.notes
    owned := hstands.metadata.owners ▸ h.owned }

theorem Of.encode (h : slot.Of uid r) : slot.On uid r.encode := by
  have hstands := h.proper.standsIn_encode.metadata
  have hnote := h.note
  refine { Identity.Of.encode h.toOf with
    note := ?_
    notes := (Dict.sorted_iff_keys hstands.keys).mp h.notes
    owned := hstands.owners ▸ h.owned }
  rw [hstands.note] at hnote
  obtain ⟨value, hvalue, hstring⟩ := Option.bind_eq_some_iff.mp hnote
  rw [hvalue]
  cases value <;> simp_all [Json.string?]

theorem On.patched (h : slot.On uid form) (hr : slot.Of uid r) :
    slot.On uid (form.mergePatch (Memory.withoutStatus r.encode)) := by
  have hnote := hr.note
  refine { h.toOn.patched hr.toOf with note := ?_, notes := ?_, owned := ?_ } <;>
    rw [Memory.metadata_patched form hr.proper]
  · cases htexts : r.metadata.annotations with
    | none => simp [Metadata.annotation?, htexts] at hnote
    | some texts =>
      refine Metadata.note_merged _ _ htexts (by simpa [htexts] using hr.notes) ?_
      simpa [Metadata.annotation?, htexts] using hnote
  · exact Metadata.sorted_notes_merged _ _ h.notes
  · rw [Metadata.owners?_merged]
    have howned := hr.owned
    cases howners : r.metadata.ownerReferences with
    | none => simp [ControlledBy, howners] at howned
    | some owners => rwa [howners] at howned

theorem On.versioned (h : slot.On uid form) : slot.On uid (Memory.versioned form) where
  toOn := h.toOn.versioned
  note := by rw [Metadata.notes_versioned]; exact h.note
  notes := by rw [Metadata.notes_versioned]; exact h.notes
  owned := by rw [Metadata.owners?_versioned]; exact h.owned

theorem Of.fresh (h : slot.Of uid r) : slot.Of uid (Memory.fresh r) where
  toOf := h.toOf.fresh
  note := h.note
  notes := h.notes
  owned := h.owned

end Slot

/-! ### The composite -/

/-- A resource that has a name, or is not given one by the server. -/
def Resource.Nameable (r : Resource) : Prop :=
  r.metadata.unnamed = true → r.metadata.generateName = none

/-- The identity of a composite, with the identifier that its resources know it by. -/
structure Owner extends Identity where
  /-- The unique identifier. -/
  uid : String
  /-- The identifier is not empty. -/
  uid_ne : uid ≠ ""

namespace Owner

/-- A resource is the composite, which does not control itself. -/
structure Of (owner : Owner) (c : Resource) : Prop extends owner.toIdentity.Of c where
  /-- The unique identifier. -/
  uid : c.metadata.uid = some owner.uid
  /-- The server does not make up a name for it. -/
  nameable : c.Nameable
  /-- The composite is not its own controller. -/
  free : ¬ ControlledBy owner.uid c.metadata.ownerReferences

/-- A form is that of the composite. -/
structure On (owner : Owner) (form : Json) : Prop extends owner.toIdentity.On form where
  /-- The unique identifier. -/
  uid : form.metadata.text? "uid" = some owner.uid
  /-- The server does not make up a name for it. -/
  nameable : owner.name.getD "" = "" → form.metadata.text? "generateName" = none
  /-- The composite is not its own controller. -/
  free : ¬ ControlledBy owner.uid (Metadata.owners? form.metadata)

variable {owner : Owner} {c r : Resource} {form form' : Json}

theorem Of.uid_eq (h : owner.Of c) : c.uid = owner.uid := by simp [Resource.uid, h.uid]

theorem Of.controls_iff (h : owner.Of c) :
    c.controls r = true ↔ ControlledBy owner.uid r.metadata.ownerReferences :=
  ResourceComposition.controls_iff h.uid_eq owner.uid_ne

/-- Whether the server would make up a name hangs on the identity. -/
theorem nameable_iff (h : owner.toIdentity.Of c) :
    c.Nameable ↔ (owner.name.getD "" = "" → c.metadata.generateName = none) := by
  simp [Resource.Nameable, Metadata.unnamed, h.name]

theorem On.read (h : owner.On form) (hread : ofJson form = .ok c) :
    owner.Of c ∧ c.spec = form.spec := by
  obtain ⟨hof, hstands⟩ := h.toOn.read hread
  exact ⟨{ hof with
    uid := hstands.metadata.uid.trans h.uid
    nameable := (nameable_iff hof).mpr fun hname =>
      hstands.metadata.generateName.trans (h.nameable hname)
    free := hstands.metadata.owners ▸ h.free }, hstands.spec⟩

theorem On.patched (h : owner.On form) (hc : owner.Of c) :
    owner.On (form.mergePatch (Memory.withoutStatus c.encode)) := by
  refine { h.toOn.patched hc.toOf with uid := ?_, nameable := fun hname => ?_, free := ?_ } <;>
    rw [Memory.metadata_patched form hc.proper]
  · rw [Metadata.uid_merged, hc.uid]
    rfl
  · rw [Metadata.generateName_merged, (nameable_iff hc.toOf).mp hc.nameable hname,
      h.nameable hname]
    rfl
  · rw [Metadata.owners?_merged]
    have hfree := hc.free
    cases howners : c.metadata.ownerReferences with
    | none => exact h.free
    | some owners => rwa [howners] at hfree

theorem On.versioned (h : owner.On form) : owner.On (Memory.versioned form) where
  toOn := h.toOn.versioned
  uid := by rw [Json.text?, Memory.metadata_versioned form (by decide)]; exact h.uid
  nameable := by rw [Json.text?, Memory.metadata_versioned form (by decide)]; exact h.nameable
  free := by rw [Metadata.owners?_versioned]; exact h.free

theorem On.of_sameHeader (h : owner.On form) (hsame : Identity.SameHeader form form') :
    owner.On form' where
  toOn := h.toOn.of_sameHeader hsame
  uid := by rw [hsame.metadata]; exact h.uid
  nameable := by rw [hsame.metadata]; exact h.nameable
  free := by rw [hsame.metadata]; exact h.free

end Owner

end ResourceComposition
