import ResourceComposition.Proofs.Custody
import ResourceComposition.Proofs.Renditions
import ResourceComposition.Proofs.Sparing

/-!
# Guarding what others control

Rendering guards the objects of others by a look at the rendered resource: if it has a controller
that is not the composite, the composition ends. The look is at the object that will be written
only if base and patches leave identity and owners as they were; `Template.Modest` says so of a
template, which may set labels, annotations and whatever else it likes. A resource that is rendered
then belongs to the composite, or to nobody else.
-/

namespace ResourceComposition

open Resource

/-- A reference gives a type, and has the group and version of a certain type if it has the kind. -/
def Reference.Agrees (reference : Reference) (type : TypeMeta) : Prop :=
  ∃ own : TypeMeta, reference.apiVersion = some own.apiVersion ∧ reference.kind = some own.kind ∧
    own.kind ≠ "" ∧ (own.kind = type.kind → own = type)

/-- A template that leaves identity and owners of resources alone. -/
structure Template.Modest (references : List Reference) (t : Template) : Prop where
  /-- The base makes resources of a type, on which the references agree. -/
  makes : ∃ type, t.Makes type ∧ ∀ reference ∈ references, reference.Agrees type
  /-- The base gives no owners. -/
  owners : ∀ top, t.base.field? "metadata" = some top →
    top.isObject = true ∧ top.field? "ownerReferences" = none
  /-- No patch writes to the type, the name or the namespace, of the resource or of the composite.
  -/
  identity : ∀ p ∈ t.patches, p.type ≠ .patchSet → p.SparesIdentity
  /-- No patch writes to the owners of the resource. -/
  spared : ∀ p ∈ t.patches, p.type = .fromComposite ∨ p.type = .fromEnvironment → p.SparesOwners

/-- What preparing makes of a resource if the template is modest. -/
structure Template.Steady (type : TypeMeta) (composite before r : Resource) : Prop where
  /-- The type is that of the base. -/
  type : r.typeMeta = some type
  /-- The body leaves the header to its place. -/
  proper : r.Proper
  /-- The kind is as it was before, if there was one. -/
  kind : before.kind = "" ∨ before.kind = r.kind
  /-- The name is as it was before. -/
  name : r.metadata.name = before.metadata.name
  /-- The namespace is as it was before. -/
  ns : r.metadata.ns = before.metadata.ns
  /-- The composite is the controller. -/
  owned : ControlledBy composite.uid r.metadata.ownerReferences
  /-- Nobody else was the controller before. -/
  free : ∀ other, before.metadata.controller? = some other → other.uid = composite.uid

namespace Template

variable {t : Template} {type : TypeMeta} {reference : Reference} {references : List Reference}
  {environment : Json} {composite before r : Resource}

/-- A base that gives no owners leaves them as they are. -/
theorem Modest.owners?_overMetadata (ht : t.Modest references) (m : Metadata) :
    Metadata.owners? (t.overMetadata m) = m.ownerReferences := by
  rw [m.standsIn_encode.owners, overMetadata]
  cases htop : t.base.field? "metadata" with
  | none => rfl
  | some top =>
    obtain ⟨type, hmakes, -⟩ := ht.makes
    obtain ⟨hobject, hnone⟩ := ht.owners top htop
    have hfield := Json.field?_overlay m.encode.fields hobject
      (hmakes.ordered.field? htop).sorted "ownerReferences"
    rw [hnone] at hfield
    change Metadata.owners? ((Json.object m.encode.fields).overlay top) = _
    rw [Metadata.owners?, hfield]
    rfl

/-- What is prepared from a modest template is the object from before, and it was free. -/
theorem Modest.steady (ht : t.Modest references) (hbefore : before.Proper)
    (h : t.prepare environment composite before = .ok r) :
    ∃ type, Steady type composite before r ∧ ∀ reference ∈ references, reference.Agrees type := by
  obtain ⟨merged, namePrefix, patched, hlaid, hkind, hpatched, hadopt⟩ := prepare_eq_ok h
  obtain ⟨type, hmakes, hagrees⟩ := ht.makes
  obtain ⟨htype, hproper, hstands⟩ := laidOver_spec hmakes hbefore hlaid
  have hid := t.identify_spec composite.identifyingLabels namePrefix before merged
  have hcomposed (p : Patch) (hsource : (Patch.composedSource composite environment p.type).isSome) :
      p.type = .fromComposite ∨ p.type = .fromEnvironment := by
    cases hptype : p.type <;> simp [Patch.composedSource, hptype] at hsource ⊢
  have hidentified := hproper.congr hid.type hid.body
  have hsame := Patch.applyTo_identity (fun p hp hsource => ht.identity p hp (by
    rintro hset
    simpa [hset] using hcomposed p hsource)) hidentified hpatched
  have howners := Patch.applyTo_owners
    (fun p hp hsource => ht.spared p hp (hcomposed p hsource)) hidentified hpatched
  obtain ⟨rfl, howned, hfree⟩ := adopt_spec hadopt
  have hkept : patched.metadata.ownerReferences = before.metadata.ownerReferences := calc
    patched.metadata.ownerReferences
    _ = (t.identify composite.identifyingLabels namePrefix before merged).metadata.ownerReferences :=
      howners
    _ = merged.metadata.ownerReferences := hid.owners
    _ = before.metadata.ownerReferences := hstands.owners.trans (ht.owners?_overMetadata _)
  have hpatchedType : patched.typeMeta = merged.typeMeta := hsame.type.trans hid.type
  refine ⟨type, {
    type := hpatchedType.trans htype
    proper := hsame.proper.congr rfl rfl
    kind := ?_
    name := hsame.name.trans hid.name
    ns := hsame.ns.trans hid.ns
    owned := howned
    free := fun other hother => hfree other (by rwa [Metadata.controller?, hkept]) }, hagrees⟩
  exact hkind.imp_right fun heq => heq.trans (by rw [Resource.kind, Resource.kind, hpatchedType])

/-- A resource is prepared under the key under which it was found. -/
theorem Steady.key (h : Steady type composite before r) (hagrees : reference.Agrees type)
    (hkey : before.key = reference.key) : r.key = reference.key := by
  obtain ⟨own, hversion, hkind, hne, hsame⟩ := hagrees
  rw [Identity.key_eq] at hkey
  simp only [Reference.key, hversion, hkind, Option.getD_some, ObjectKey.mk.injEq] at hkey
  obtain ⟨-, hbefore, hns, hname⟩ := hkey
  have hrkind : r.kind = type.kind := by simp [Resource.kind, h.type]
  obtain rfl : own = type :=
    hsame (hbefore.symm.trans ((h.kind.resolve_left (hbefore ▸ hne)).trans hrkind))
  rw [Identity.key_eq]
  simp [Resource.apiVersion, Resource.kind, h.type, h.ns, h.name, hns, hname, Reference.key,
    hversion, hkind]

end Template

/-- A resource that the composite may write: it has an identity with a name, and the composite is
its controller. -/
structure Resource.Owned (uid : String) (r : Resource) : Prop where
  /-- It has an identity. -/
  lies : r.LiesAt r.key
  /-- It has a name. -/
  named : r.metadata.unnamed = false
  /-- The composite is its controller. -/
  owned : ControlledBy uid r.metadata.ownerReferences

namespace Template

variable {t : Template} {type : TypeMeta} {composite before r : Resource}

theorem Steady.owned_of_named (h : Steady type composite before r)
    (hnamed : r.metadata.unnamed = false) : r.Owned composite.uid where
  lies := by
    have hname : r.metadata.name = some (r.metadata.name.getD "") := by
      cases hname : r.metadata.name with
      | none => simp [Metadata.unnamed, hname] at hnamed
      | some name => rfl
    have hof := Identity.of_full h.type hname rfl h.proper
    exact ⟨type, _, _, hof.key.symm, hof⟩
  named := hnamed
  owned := h.owned

theorem Steady.named (h : Steady type composite before r) (name : String) :
    Steady type composite { before with metadata := { before.metadata with name := some name } }
      { r with metadata := { r.metadata with name := some name } } :=
  { h with proper := h.proper.congr rfl rfl, name := rfl }

end Template

namespace Ledger

variable {s after : Ledger} {t : Template} {references : List Reference} {environment : Json}
  {composite before r : Resource}

/-- What is rendered may be written, and nobody else controls what is there. -/
def Guarded (composite r : Resource) (s : Ledger) : Prop :=
  r.Owned composite.uid ∧ ¬ s.Foreign composite r.key

theorem Guarded.extends (h : s.Guarded composite r) (hs : s.Extends after) :
    after.Guarded composite r :=
  ⟨h.1, fun hforeign => h.2 (hforeign.of_lookup? (hs.lookup? _))⟩

/-- A resource that was observed has a proper form, and what is prepared from it under a name of its
own is not foreign. -/
structure Observed (t : Template) (environment : Json) (composite before : Resource) (s : Ledger) :
    Prop where
  /-- The body leaves the header to its place. -/
  proper : before.Proper
  /-- What is there belongs to nobody else. -/
  spared : ∀ r, t.prepare environment composite before = .ok r → r.metadata.unnamed = false →
    ¬ s.Foreign composite r.key

theorem spares_of_changed? {request : Call} (h : changed? request = none) :
    Spares composite request s := fun ⟨object, hobject, _⟩ => by
  rw [h] at hobject
  cases hobject

theorem render_guards (ht : t.Modest references)
    (hbefore : Observed t environment composite before s) :
    (t.render environment composite before).Keeps Serves (Spares composite)
      (fun r after => s.Extends after ∧ after.Guarded composite r) (fun after => s.Extends after)
      s := by
  refine Attempt.keeps_bind.mpr (Attempt.keeps_ofExcept.mpr ?_)
  cases hprepare : t.prepare environment composite before with
  | error e => exact .refl s
  | ok r =>
    obtain ⟨type, hr, -⟩ := ht.steady hbefore.proper hprepare
    by_cases hnamed : r.metadata.unnamed = true
    · refine allocateName_unnamed hnamed (spares_of_changed? rfl) (fun _ => id)
        fun name hfresh hname => ⟨s.extends_give name, (hr.named name).owned_of_named ?_, ?_⟩
      · simpa [Metadata.unnamed] using hname
      · -- No object has the fresh name.
        refine not_foreign_of_none (Option.eq_none_iff_forall_ne_some.mpr fun form hform => ?_)
        exact hfresh.2 _ form ((s.extends_give name).lookup? _ ▸ hform) rfl
    · have hnamed : r.metadata.unnamed = false := by simpa using hnamed
      exact allocateName_named hnamed ⟨.refl s, hr.owned_of_named hnamed,
        hbefore.spared r hprepare hnamed⟩

/-- The state of a composed resource is observed in an orderly store. -/
theorem observe_guards {reference? : Option Reference} (environment : Json) (ht : t.Modest references)
    (hs : s.Orderly) (hmem : ∀ reference, reference? = some reference → reference ∈ references) :
    (Composition.observe reference?).Keeps Serves (Spares composite)
      (fun before after => after = s ∧ Observed t environment composite before s)
      (fun _ => True) s := by
  cases reference? with
  | none =>
    have hproper : Proper {} := proper_empty rfl
    refine Attempt.keeps_pure.mpr ⟨rfl, hproper, fun r hprepare hnamed => ?_⟩
    obtain ⟨type, hr, -⟩ := ht.steady hproper hprepare
    simp [Metadata.unnamed, hr.name] at hnamed
  | some reference =>
    have hkey (before r : Resource) (hproper : before.Proper) (hbefore : before.key = reference.key)
        (hprepare : t.prepare environment composite before = .ok r) : r.key = reference.key := by
      obtain ⟨type, hr, hagrees⟩ := ht.steady hproper hprepare
      exact hr.key (hagrees reference (hmem reference rfl)) hbefore
    refine Attempt.keeps_bind.mpr (find_keeps (spares_of_changed? rfl) trivial (fun hlookup => ?_)
      fun form before hlookup hread => ?_)
    · -- Nothing is there, and so nothing that another controls.
      obtain ⟨type, -, hagrees⟩ := ht.makes
      obtain ⟨own, hversion, hkind, -⟩ := hagrees reference (hmem reference rfl)
      refine Attempt.keeps_pure.mpr ⟨rfl, proper_empty rfl, fun r hprepare _ => ?_⟩
      rw [hkey _ r (proper_empty rfl) ?_ hprepare]
      · exact not_foreign_of_none hlookup
      · simp [Resource.key, Resource.reference, Reference.key, ofReference, Resource.apiVersion,
          Resource.kind, hversion, hkind, Identity.getD_nonEmpty]
    · have hproper := (hs.read hlookup hread).proper
      refine Attempt.keeps_pure.mpr ⟨rfl, hproper, fun r hprepare _ hforeign => ?_⟩
      rw [hkey before r hproper (hs.read hlookup hread).key hprepare] at hforeign
      obtain ⟨stored, other, hstored, hcontroller, hne⟩ := hforeign.held
      obtain ⟨form', hform', hread'⟩ := stored?_eq_some.mp hstored
      obtain rfl := Option.some.inj (hlookup.symm.trans hform')
      obtain rfl := Except.ok.inj (hread.symm.trans hread')
      obtain ⟨type, hr, -⟩ := ht.steady hproper hprepare
      exact hne (hr.free other hcontroller)

end Ledger

end ResourceComposition
