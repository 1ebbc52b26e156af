import ResourceComposition.Proofs.Application
import ResourceComposition.Proofs.Slots

/-!
# Custody of stored objects

An object belongs to the owner that controls it, and a composite must not take over what belongs to
another. `Ledger.Foreign` says that an object belongs to another than a composite, and
`Ledger.TakesOver` that a call changes such an object.

A store is orderly if every object lies under the key that its form gives. A composition keeps it
so, and what it writes for a composite does not become foreign.
-/

namespace ResourceComposition

open Resource

/-- A resource has a type and a name, and its identity has a key. -/
def Resource.LiesAt (key : ObjectKey) (r : Resource) : Prop :=
  ∃ type name ns, (Identity.full type name ns).key = key ∧ (Identity.full type name ns).Of r

/-- A form has a type and a name, and its identity has a key. -/
def Json.LiesAt (key : ObjectKey) (form : Json) : Prop :=
  ∃ type name ns, (Identity.full type name ns).key = key ∧ (Identity.full type name ns).On form

theorem Resource.LiesAt.key {key : ObjectKey} {r : Resource} (h : r.LiesAt key) : r.key = key := by
  obtain ⟨type, name, ns, rfl, hof⟩ := h
  exact hof.key

theorem Resource.LiesAt.proper {key : ObjectKey} {r : Resource} (h : r.LiesAt key) : r.Proper := by
  obtain ⟨type, name, ns, -, hof⟩ := h
  exact hof.proper

theorem Resource.LiesAt.named {key : ObjectKey} {r : Resource} (h : r.LiesAt key)
    (hname : key.name ≠ "") : r.metadata.unnamed = false := by
  obtain ⟨type, name, ns, rfl, hof⟩ := h
  have hname' : r.metadata.name = some name := hof.name
  have hne : name ≠ "" := hname
  simp [Metadata.unnamed, hname', hne]

theorem Json.LiesAt.read {key : ObjectKey} {form : Json} {r : Resource} (h : form.LiesAt key)
    (hread : ofJson form = .ok r) : r.LiesAt key := by
  obtain ⟨type, name, ns, rfl, hon⟩ := h
  exact ⟨type, name, ns, rfl, (hon.read hread).1⟩

theorem Json.LiesAt.sorted {key : ObjectKey} {form : Json} (h : form.LiesAt key) :
    form.fields.Sorted := by
  obtain ⟨type, name, ns, -, hon⟩ := h
  exact hon.sorted

namespace Ledger

variable {s after : Ledger} {composite r r' : Resource} {key other : ObjectKey} {form : Json}

/-- Every object lies under the key that its form gives. -/
def Orderly (s : Ledger) : Prop := ∀ key form, s.lookup? key = some form → form.LiesAt key

theorem Orderly.read (h : s.Orderly) (hform : s.lookup? key = some form)
    (hread : ofJson form = .ok r) : r.LiesAt key := (h key form hform).read hread

theorem Orderly.extends (h : s.Orderly) (hs : s.Extends after) : after.Orderly :=
  fun key form hform => h key form (by rwa [hs.lookup?] at hform)

theorem Orderly.remove (h : s.Orderly) : (s.remove key).Orderly := fun other form hform => by
  rw [lookup?_remove] at hform
  split at hform
  · cases hform
  · exact h other form hform

theorem Orderly.put (h : s.Orderly) (hform : form.LiesAt key) : (s.put key form).Orderly :=
  fun other form' hform' => by
    rw [lookup?_put] at hform'
    split at hform'
    · next heq =>
      obtain rfl := Option.some.inj hform'
      exact heq ▸ hform
    · exact h other form' hform'

/-- What is applied to a stored form gives the key under which the form is stored. -/
theorem liesAt_applied (h : r.LiesAt key) (hform : form.LiesAt key) :
    (applied r form).LiesAt key := by
  obtain ⟨type, name, ns, rfl, hr⟩ := h
  obtain ⟨type', name', ns', hkey, hon⟩ := hform
  refine ⟨type, name, ns.or ns', ?_, (hon.patchedBy hr).versioned⟩
  -- Without a namespace in the resource, the form keeps its own, and that is the one of the key.
  have hns : ns'.getD "" = ns.getD "" := congrArg ObjectKey.ns hkey
  simp only [Identity.key, ObjectKey.mk.injEq]
  refine ⟨rfl, rfl, ?_, rfl⟩
  cases ns with
  | none => exact hns
  | some ns => rfl

theorem liesAt_fresh (h : r.LiesAt key) : (Memory.fresh r).LiesAt key := by
  obtain ⟨type, name, ns, rfl, hr⟩ := h
  exact ⟨type, name, ns, rfl, hr.fresh⟩

theorem liesAt_encode (h : r.LiesAt key) : r.encode.LiesAt key := by
  obtain ⟨type, name, ns, rfl, hr⟩ := h
  exact ⟨type, name, ns, rfl, hr.encode⟩

theorem liesAt_statusOnly (patch : Json) (hform : form.LiesAt key) :
    (Memory.versioned (form.mergePatch (Memory.statusOnly patch))).LiesAt key := by
  obtain ⟨type, name, ns, rfl, hon⟩ := hform
  have hsame := Identity.sameHeader_statusOnly hon.sorted patch
  exact ⟨type, name, ns, rfl, (hon.of_sameHeader hsame).versioned⟩

/-! ### Foreign objects -/

/-- What is stored under a key is not the composite, and another controls it. -/
structure Foreign (composite : Resource) (key : ObjectKey) (s : Ledger) : Prop where
  /-- The key is not that of the composite. -/
  apart : key ≠ composite.key
  /-- The object that is stored names another controller. -/
  held : ∃ r other, s.stored? key = some r ∧ r.metadata.controller? = some other ∧
    other.uid ≠ composite.uid

instance (composite : Resource) (key : ObjectKey) (s : Ledger) :
    Decidable (s.Foreign composite key) :=
  decidable_of_iff (key ≠ composite.key ∧ ((s.stored? key).bind (·.metadata.controller?)).any
      (fun other => other.uid ≠ composite.uid) = true) <| by
    simp only [Option.any_eq_true, Option.bind_eq_some_iff, decide_eq_true_eq]
    refine ⟨fun ⟨hne, other, ⟨r, hr, hother⟩, huid⟩ => ⟨hne, r, other, hr, hother, huid⟩,
      fun ⟨hne, r, other, hr, hother, huid⟩ => ⟨hne, other, ⟨r, hr, hother⟩, huid⟩⟩

/-- The object that a call changes, if the call is for one that is there. -/
def changed? : Call → Option Resource
  | .update object | .patch object _ | .patchStatus object _ => some object
  | .get _ | .create _ _ | .delete _ | .publish _ _ _ => none

/-- A call changes an object that belongs to another than the composite. -/
def TakesOver (composite : Resource) (request : Call) (s : Ledger) : Prop :=
  ∃ object, changed? request = some object ∧ s.Foreign composite object.key

instance (composite : Resource) (request : Call) (s : Ledger) :
    Decidable (s.TakesOver composite request) :=
  decidable_of_iff ((changed? request).any (fun object => s.Foreign composite object.key) = true) <| by
    simp [TakesOver, Option.any_eq_true]

/-- If a call takes something over, then it replaces it. -/
def Spares (composite : Resource) (request : Call) (s : Ledger) : Prop :=
  TakesOver composite request s → ∃ object, request = .update object

theorem stored?_congr (h : after.lookup? key = s.lookup? key) :
    after.stored? key = s.stored? key := by
  rw [stored?, h, stored?]

theorem Foreign.of_lookup? (h : after.Foreign composite key)
    (hlookup : after.lookup? key = s.lookup? key) : s.Foreign composite key :=
  ⟨h.apart, stored?_congr hlookup ▸ h.held⟩

theorem not_foreign_of_none (h : s.lookup? key = none) : ¬ s.Foreign composite key := by
  intro hforeign
  obtain ⟨r, -, hstored, -⟩ := hforeign.held
  simp [stored?, h] at hstored

/-- What is written with the composite as its controller is not foreign. -/
theorem not_foreign_put
    (h : ControlledBy composite.uid (Metadata.owners? form.metadata)) :
    ¬ (s.put key form).Foreign composite key := fun hforeign => by
  obtain ⟨r, other, hstored, hcontroller, hne⟩ := hforeign.held
  obtain ⟨form', hform', hread⟩ := stored?_eq_some.mp hstored
  rw [lookup?_put, if_pos rfl] at hform'
  obtain rfl := Option.some.inj hform'
  obtain ⟨owner, howner, huid⟩ := h
  rw [← (metadata_of_ofJson hread).owners] at howner
  obtain rfl : owner = other := Option.some.inj (howner.symm.trans hcontroller)
  exact hne huid

/-- Writing what the composite controls, or the composite, makes nothing foreign. -/
theorem Foreign.of_put (h : (s.put other form).Foreign composite key)
    (hform : other = composite.key ∨
      ControlledBy composite.uid (Metadata.owners? form.metadata)) : s.Foreign composite key := by
  by_cases hkey : key = other
  · subst hkey
    obtain rfl | hform := hform
    · exact absurd rfl h.apart
    · exact absurd h (not_foreign_put hform)
  · exact h.of_lookup? (by rw [lookup?_put, if_neg hkey])

theorem owners?_applied {uid : String} (hproper : r.Proper)
    (h : ControlledBy uid r.metadata.ownerReferences) :
    ControlledBy uid (Metadata.owners? (applied r form).metadata) := by
  rw [applied, Metadata.owners?_versioned, Memory.metadata_patched form hproper,
    Metadata.owners?_merged]
  cases howners : r.metadata.ownerReferences with
  | none => simp [ControlledBy, howners] at h
  | some owners => rwa [howners] at h

theorem owners?_fresh {uid : String} (hproper : r.Proper)
    (h : ControlledBy uid r.metadata.ownerReferences) :
    ControlledBy uid (Metadata.owners? (Memory.fresh r).encode.metadata) := by
  have hstands := (Proper.standsIn_encode (r := Memory.fresh r)
    (hproper.congr rfl rfl)).metadata
  rw [← hstands.owners]
  exact h

end Ledger

end ResourceComposition
