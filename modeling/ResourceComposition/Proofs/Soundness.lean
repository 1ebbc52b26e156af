import Mathlib.Data.List.Nodup
import ResourceComposition.Proofs.Ledger
import ResourceComposition.Proofs.Slots

/-!
# The invariant of composition

`Ledger.Sound` is what holds of a store between any two calls of a composition. The composite refers
to the slots and to nothing else; templates and names tell the slots apart; what is stored in a slot
is its resource; and whatever the composite controls lies in a slot. A slot may be empty, since a
composite refers to a resource before the resource is created.

The invariant may be watched for standing still: then all slots are full, and stay so.
-/

namespace ResourceComposition

open Resource

namespace Ledger

/-- An object is stored under a key. -/
def Has (s : Ledger) (key : ObjectKey) : Prop := (s.lookup? key).isSome = true

/-- The state of a composition that works on slots. It may be watched for standing still. -/
structure Sound (owner : Owner) (version : String → String) (still : Prop) (slots : List Slot)
    (s : Ledger) : Prop where
  /-- The composite is stored and refers to the slots, in their order. -/
  composite : ∃ form, s.lookup? owner.key = some form ∧ owner.On form ∧
    form.spec.Holds (slots.map Slot.reference) ∧
      (still → form.spec.Refers (slots.map Slot.reference))
  /-- The template tells the group and version. -/
  version : ∀ slot ∈ slots, slot.apiVersion = version slot.template
  /-- No two slots are for one template. -/
  templates : (slots.map Slot.template).Nodup
  /-- No two slots have one name. -/
  names : (slots.map Slot.name).Nodup
  /-- The names of the slots were given out. -/
  given : ∀ slot ∈ slots, slot.name ∈ s.given
  /-- The composite is in no slot. -/
  apart : ∀ slot ∈ slots, slot.name ≠ owner.key.name
  /-- What is stored in a slot is the resource of the slot. -/
  held : ∀ slot ∈ slots, ∀ form, s.lookup? slot.key = some form → slot.On owner.uid form
  /-- What the composite controls is in a slot. -/
  covered : ∀ key form r, s.lookup? key = some form → ofJson form = .ok r →
    ControlledBy owner.uid r.metadata.ownerReferences → ∃ slot ∈ slots, slot.key = key
  /-- Standing still, all slots are full. -/
  full : still → ∀ slot ∈ slots, s.Has slot.key

variable {owner : Owner} {version : String → String} {still : Prop} {slots kept : List Slot}
  {slot other : Slot} {s after : Ledger} {form : Json}

theorem key_ne_of_name_ne (h : slot.name ≠ owner.key.name) : slot.key ≠ owner.key :=
  fun heq => h (congrArg ObjectKey.name heq)

theorem Sound.eq_of_key (h : s.Sound owner version still slots) (hslot : slot ∈ slots)
    (hother : other ∈ slots) (hkey : slot.key = other.key) : slot = other :=
  List.inj_on_of_nodup_map h.names hslot hother (congrArg ObjectKey.name hkey)

theorem Sound.eq_of_template (h : s.Sound owner version still slots) (hslot : slot ∈ slots)
    (hother : other ∈ slots) (htemplate : slot.template = other.template) : slot = other :=
  List.inj_on_of_nodup_map h.templates hslot hother htemplate

theorem Sound.extends (h : s.Sound owner version still slots) (hs : s.Extends after) :
    after.Sound owner version still slots where
  composite := by simpa only [hs.lookup?] using h.composite
  version := h.version
  templates := h.templates
  names := h.names
  given slot hslot := hs.given _ (h.given slot hslot)
  apart := h.apart
  held slot hslot form := by rw [hs.lookup?]; exact h.held slot hslot form
  covered key form r := by rw [hs.lookup?]; exact h.covered key form r
  full hstill slot hslot := by rw [Has, hs.lookup?]; exact h.full hstill slot hslot

/-- A slot is emptied. -/
theorem Sound.remove (h : s.Sound owner version still slots) (hstill : ¬ still)
    (hslot : slot ∈ slots) : (s.remove slot.key).Sound owner version still slots where
  composite := by
    simpa only [lookup?_remove, if_neg (key_ne_of_name_ne (h.apart slot hslot)).symm]
      using h.composite
  version := h.version
  templates := h.templates
  names := h.names
  given := h.given
  apart := h.apart
  held other hother form hform := by
    rw [lookup?_remove] at hform
    split at hform
    · cases hform
    · exact h.held other hother form hform
  covered key form r hform := by
    rw [lookup?_remove] at hform
    split at hform
    · cases hform
    · exact h.covered key form r hform
  full := fun h => absurd h hstill

/-- The resource of a slot is written. -/
theorem Sound.put_slot (h : s.Sound owner version still slots) (hslot : slot ∈ slots)
    (hform : slot.On owner.uid form) : (s.put slot.key form).Sound owner version still slots where
  composite := by
    simpa only [lookup?_put, if_neg (key_ne_of_name_ne (h.apart slot hslot)).symm]
      using h.composite
  version := h.version
  templates := h.templates
  names := h.names
  given := h.given
  apart := h.apart
  held other hother stored hstored := by
    rw [lookup?_put] at hstored
    split at hstored
    · next hkey =>
      obtain rfl := h.eq_of_key hother hslot hkey
      exact Option.some.inj hstored ▸ hform
    · exact h.held other hother stored hstored
  covered key stored r hstored hread hcontrolled := by
    rw [lookup?_put] at hstored
    split at hstored
    · next hkey => exact ⟨slot, hslot, hkey.symm⟩
    · exact h.covered key stored r hstored hread hcontrolled
  full hstill other hother := by
    rw [Has, lookup?_put]
    split
    · rfl
    · exact h.full hstill other hother

/-- Slots may come after others: what is stored stays in a slot, and new slots are empty. -/
structure Succeeds (owner : Owner) (version : String → String) (still : Prop)
    (slots kept : List Slot) (s : Ledger) : Prop where
  /-- The template tells the group and version. -/
  version : ∀ slot ∈ kept, slot.apiVersion = version slot.template
  /-- No two slots are for one template. -/
  templates : (kept.map Slot.template).Nodup
  /-- No two slots have one name. -/
  names : (kept.map Slot.name).Nodup
  /-- The names of the slots were given out. -/
  given : ∀ slot ∈ kept, slot.name ∈ s.given
  /-- The composite is in no slot. -/
  apart : ∀ slot ∈ kept, slot.name ≠ owner.key.name
  /-- A new slot is empty. -/
  empty : ∀ slot ∈ kept, slot ∈ slots ∨ s.lookup? slot.key = none
  /-- A slot that is full is kept. -/
  covered : ∀ slot ∈ slots, s.Has slot.key → slot ∈ kept
  /-- Standing still, the slots are the same. -/
  still : still → kept = slots

theorem Sound.succeeds (h : s.Sound owner version still slots) :
    s.Succeeds owner version still slots slots where
  version := h.version
  templates := h.templates
  names := h.names
  given := h.given
  apart := h.apart
  empty _ := .inl
  covered _ hslot _ := hslot
  still _ := rfl

/-- The composite is written, and refers to slots that come after those before. If they are all
full and stand in its spec, the state may be said to stand still. -/
theorem Sound.put_composite {still' : Prop} (h : s.Sound owner version still slots)
    (hkept : s.Succeeds owner version still slots kept) (hform : owner.On form)
    (hspec : form.spec.Holds (kept.map Slot.reference))
    (hwritten : still' → form.spec.Refers (kept.map Slot.reference))
    (hfull : still' → ∀ slot ∈ kept, s.Has slot.key) :
    (s.put owner.key form).Sound owner version still' kept := by
  have hlookup {slot : Slot} (hslot : slot ∈ kept) :
      (s.put owner.key form).lookup? slot.key = s.lookup? slot.key := by
    rw [lookup?_put, if_neg (key_ne_of_name_ne (hkept.apart slot hslot))]
  refine {
    composite := ⟨form, by rw [lookup?_put, if_pos rfl], hform, hspec, hwritten⟩
    version := hkept.version
    templates := hkept.templates
    names := hkept.names
    given := hkept.given
    apart := hkept.apart
    held := fun slot hslot stored hstored => ?_
    covered := fun key stored r hstored hread hcontrolled => ?_
    full := fun hstill slot hslot => ?_ }
  · rw [hlookup hslot] at hstored
    obtain hold | hnone := hkept.empty slot hslot
    · exact h.held slot hold stored hstored
    · rw [hnone] at hstored
      cases hstored
  · rw [lookup?_put] at hstored
    split at hstored
    · -- The composite does not control itself.
      obtain rfl := Option.some.inj hstored
      exact absurd hcontrolled (hform.read hread).1.free
    · obtain ⟨slot, hslot, rfl⟩ := h.covered key stored r hstored hread hcontrolled
      exact ⟨slot, hkept.covered slot hslot (by rw [Has, hstored]; rfl), rfl⟩
  · rw [Has, hlookup hslot]
    exact hfull hstill slot hslot

/-- The status of the composite is written. -/
theorem Sound.put_status (h : s.Sound owner version still slots)
    (hform : s.lookup? owner.key = some form) (patch : Json) :
    (s.put owner.key (Memory.versioned (form.mergePatch (Memory.statusOnly patch)))).Sound owner
      version still slots := by
  obtain ⟨form', hform', hon, hspec, hwritten⟩ := h.composite
  obtain rfl := Option.some.inj (hform.symm.trans hform')
  have hsame := Identity.sameHeader_statusOnly hon.sorted patch
  have hspec' : (Memory.versioned (form.mergePatch (Memory.statusOnly patch))).spec =
      form.spec := by
    rw [Json.spec_versioned, Json.spec_statusOnly]
  exact h.put_composite h.succeeds (hon.of_sameHeader hsame).versioned (hspec' ▸ hspec)
    (fun hs => hspec' ▸ hwritten hs) h.full

/-- A call neither creates nor deletes anything. -/
def Quiet : Call → Prop
  | .create _ _ | .delete _ => False
  | .get _ | .update _ | .patch _ _ | .patchStatus _ _ | .publish _ _ _ => True

/-- A call is permitted in a sound state; standing still, only if it is quiet, and the slots are
those that are given. -/
def Permits (owner : Owner) (version : String → String) (still : Prop) (slots : List Slot)
    (request : Call) (s : Ledger) : Prop :=
  ∃ kept, s.Sound owner version still kept ∧ (still → kept = slots ∧ Quiet request)

theorem Sound.permits {request : Call} (h : s.Sound owner version still slots)
    (hrequest : Quiet request) : Permits owner version still slots request s :=
  ⟨slots, h, fun _ => ⟨rfl, hrequest⟩⟩

end Ledger

end ResourceComposition
