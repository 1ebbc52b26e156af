import ResourceComposition.Composition.Basic
import ResourceComposition.Proofs.Binding
import ResourceComposition.Proofs.Rendered

/-!
# Rendering into slots

What is rendered for a template is the resource of a slot: of the slot that the template is bound
to, or of a new one. A new slot has a name that was never given out and that no object has.
`Ledger.Renders` follows the templates one by one and says which slots come out; the rest of the
module is about those slots.
-/

namespace ResourceComposition

open Resource

/-- A template that a composition works with: it has a name, its base gives a complete type whose
group and version are those that the name stands for, and its patches write to the spec of the
composed resource and to the status of the composite. -/
structure Template.Admissible (version : String → String) (t : Template) : Prop where
  /-- The template has a name. -/
  named : ∃ name, t.name = some name ∧ name ≠ ""
  /-- The base gives a complete type. -/
  makes : ∃ type, t.Makes type ∧ type.apiVersion ≠ "" ∧ type.kind ≠ "" ∧
    ∀ name, t.name = some name → type.apiVersion = version name
  /-- Patches of the composed resource write to its spec. -/
  composed : ∀ p ∈ t.patches, p.type = .fromComposite ∨ p.type = .fromEnvironment →
    p.WritesUnder "spec"
  /-- Patches of the composite write to its status. -/
  composite : ∀ p ∈ t.patches, p.type = .toComposite → p.WritesUnder "status"

/-- A revision that a composition works with: so are its templates, and their names tell them
apart. -/
def Revision.Admissible (version : String → String) (revision : Revision) : Prop :=
  ∀ templates, revision.inlinedTemplates = .ok templates →
    (∀ t ∈ templates, t.Admissible version) ∧ (templates.map (·.name)).Nodup

namespace Ledger

variable {owner : Owner} {version : String → String} {still : Prop} {slots kept : List Slot}
  {slot : Slot} {s after : Ledger} {t : Template} {templates : List Template}
  {composite before r : Resource} {environment : Json} {allowed : Call → Ledger → Prop}

/-! ### One template -/

theorem allocateName_named (h : r.metadata.unnamed = false) {ok : Resource → Ledger → Prop}
    {failed : Ledger → Prop} (hok : ok r s) :
    (Template.allocateName r).Keeps Serves allowed ok failed s := by
  unfold Template.allocateName
  rw [h]
  exact Attempt.keeps_pure.mpr hok

/-- A resource without a name gets a fresh one. -/
theorem allocateName_unnamed (h : r.metadata.unnamed = true) {ok : Resource → Ledger → Prop}
    {failed : Ledger → Prop} (hallowed : allowed (.create r true) s)
    (hfailed : ∀ after, s.Extends after → failed after)
    (hok : ∀ name, s.Fresh name → name ≠ "" →
      ok { r with metadata := { r.metadata with name := some name } } (s.give name)) :
    (Template.allocateName r).Keeps Serves allowed ok failed s := by
  unfold Template.allocateName
  simp only [h, if_true]
  refine Attempt.keeps_bind.mpr (Attempt.keeps_asking.mpr ⟨hallowed, fun reply after hreply => ?_⟩)
  obtain ⟨rfl, e, rfl⟩ | ⟨name, hfresh, rfl, rfl⟩ := of_dryRun h hreply
  · exact hfailed _ (.refl _)
  · by_cases hname : name = ""
    · rw [hname]
      exact hfailed _ (s.extends_give "")
    · have hfilter : (some name).filter (fun name => !name.isEmpty) = some name := by
        simp [hname]
      simp only [Program.Keeps, Ends, hfilter]
      exact Attempt.keeps_pure.mpr (hok name hfresh hname)

/-- A template is rendered onto the resource of its slot. -/
theorem render_slot (hadmissible : t.Admissible version) (htemplate : t.name = some slot.template)
    (hversion : slot.apiVersion = version slot.template) (huid : composite.uid = owner.uid)
    (hbefore : slot.Of owner.uid before) :
    (t.render environment composite before).Keeps Serves allowed
      (fun composed after => after = s ∧ slot.Of owner.uid composed) (fun after => after = s) s := by
  refine Attempt.keeps_bind.mpr (Attempt.keeps_ofExcept.mpr ?_)
  cases hprepare : t.prepare environment composite before with
  | error e => rfl
  | ok r =>
    obtain ⟨type, hmakes, -, -, hapiVersion⟩ := hadmissible.makes
    have hr := Template.prepare_spec (by simp [headerNames]) hmakes hbefore.proper
      hadmissible.composed hprepare
    have htype : r.typeMeta = some ⟨slot.apiVersion, slot.kind⟩ := by
      have hkind := hr.kind
      simp only [Resource.kind, hbefore.typeMeta, hr.type, Option.map_some, Option.getD_some]
        at hkind
      rw [hr.type, hversion, ← hapiVersion _ htemplate,
        show slot.kind = type.kind from hkind.resolve_left slot.kind_ne]
    have hof : slot.Of owner.uid r := {
      toOf := Identity.of_full htype (hr.name.trans hbefore.name) (hr.ns.trans hbefore.ns)
        hr.proper
      note := hr.note _ htemplate
      notes := hr.notes hbefore.notes
      owned := huid ▸ hr.owned }
    exact allocateName_named hof.named ⟨rfl, hof⟩

/-- A template is rendered for a new slot. -/
theorem render_new (hadmissible : t.Admissible version) (huid : composite.uid = owner.uid)
    (hallowed : ∀ object, allowed (.create object true) s) :
    (t.render environment composite {}).Keeps Serves allowed
      (fun composed after => s.Extends after ∧ ∃ slot : Slot, slot.Of owner.uid composed ∧
        t.name = some slot.template ∧ slot.apiVersion = version slot.template ∧
        s.Fresh slot.name ∧ slot.name ∈ after.given)
      (fun after => s.Extends after) s := by
  refine Attempt.keeps_bind.mpr (Attempt.keeps_ofExcept.mpr ?_)
  cases hprepare : t.prepare environment composite {} with
  | error e => exact .refl s
  | ok r =>
    obtain ⟨type, hmakes, happly, hkind, hapiVersion⟩ := hadmissible.makes
    obtain ⟨template, htemplate, hne⟩ := hadmissible.named
    have hr := Template.prepare_spec (by simp [headerNames]) hmakes
      (proper_empty rfl) hadmissible.composed hprepare
    have hunnamed : r.metadata.unnamed = true := by simp [Metadata.unnamed, hr.name]
    refine allocateName_unnamed hunnamed (hallowed r) (fun _ => id) fun name hfresh hname => ?_
    have hslot : (⟨template, type.apiVersion, type.kind, name, hne, happly, hkind, hname⟩ :
        Slot).Of owner.uid { r with metadata := { r.metadata with name := some name } } := {
      toOf := Identity.of_full hr.type rfl hr.ns (hr.proper.congr rfl rfl)
      note := hr.note _ htemplate
      notes := hr.notes Dict.sorted_nil
      owned := huid ▸ hr.owned }
    exact ⟨s.extends_give name, _, hslot, htemplate, hapiVersion _ htemplate, hfresh,
      List.mem_cons_self⟩

/-- What rendering a template can come to, with the slot that the template is bound to, if any, and
the slot that comes out. -/
inductive RendersOne (owner : Owner) (version : String → String) (t : Template)
    (slot? : Option Slot) (s : Ledger) : Composition.Rendition → Option Slot → Ledger → Prop where
  /-- The resource of the slot is rendered. -/
  | kept {slot : Slot} {composed : Resource} : slot? = some slot → slot.Of owner.uid composed →
      RendersOne owner version t slot? s (.rendered composed) (some slot) s
  /-- The resource of a new slot is rendered. -/
  | new {slot : Slot} {composed : Resource} {after : Ledger} : slot? = none →
      slot.Of owner.uid composed → t.name = some slot.template →
      slot.apiVersion = version slot.template → s.Fresh slot.name → s.Extends after →
      slot.name ∈ after.given →
      RendersOne owner version t slot? s (.rendered composed) (some slot) after
  /-- The template is skipped, and keeps its slot. -/
  | skipped {cause : CompositionError} {after : Ledger} : s.Extends after →
      RendersOne owner version t slot? s (.skipped cause) slot? after

theorem RendersOne.extends {slot? kept? : Option Slot} {rendition : Composition.Rendition}
    (h : RendersOne owner version t slot? s rendition kept? after) : s.Extends after := by
  cases h with
  | kept _ _ => exact .refl s
  | new _ _ _ _ _ h _ => exact h
  | skipped h => exact h

theorem renderOne_keeps {slot? : Option Slot} (hadmissible : t.Admissible version)
    (huid : composite.uid = owner.uid) (hsound : s.Sound owner version still slots)
    (hslot : ∀ slot, slot? = some slot → slot ∈ slots ∧ t.name = some slot.template ∧ s.Has slot.key)
    (hstill : still → slot? ≠ none) :
    (Composition.renderOne .standard environment ⟨t, slot?.map Slot.reference⟩).Keeps Serves
      (Permits owner version still slots)
      (fun rendition c after => c = composite ∧
        ∃ kept?, RendersOne owner version t slot? s rendition kept? after)
      (fun after => after.Sound owner version still slots) composite s := by
  refine Composing.keeps_bind.mpr (Composing.keeps_during.mpr ?_)
  -- A failure ends the composition or skips the template; the store was left alone either way.
  have hfailed (after : Ledger) (hafter : s.Extends after) (e : CompositionError) :
      (if e.isIdentityConflict then throw (.inStage .renderComposed e)
        else pure (.skipped e) : Composing Composition.Rendition).Keeps Serves
        (Permits owner version still slots)
        (fun rendition c after => c = composite ∧
          ∃ kept?, RendersOne owner version t slot? s rendition kept? after)
        (fun after => after.Sound owner version still slots) composite after := by
    split
    · exact Composing.keeps_throw.mpr (hsound.extends hafter)
    · exact Composing.keeps_pure.mpr ⟨rfl, slot?, .skipped hafter⟩
  cases slot? with
  | none =>
    refine Attempt.keeps_pure.mpr (Composing.keeps_bind.mpr (Composing.keeps_renderComposed ?_))
    refine (render_new hadmissible huid fun object =>
      ⟨slots, hsound, fun h => absurd rfl (hstill h)⟩).mono ?_ hfailed
    rintro composed after ⟨hafter, slot, hof, htemplate, hversion, hfresh, hgiven⟩
    exact ⟨rfl, some slot, .new rfl hof htemplate hversion hfresh hafter hgiven⟩
  | some slot =>
    obtain ⟨hmem, htemplate, hhas⟩ := hslot slot rfl
    refine Attempt.keeps_bind.mpr (find_keeps (hsound.permits trivial) hsound (fun hlookup => ?_)
      fun form before hlookup hread => ?_)
    · simp [Has, show s.lookup? slot.key = none from hlookup] at hhas
    · have hbefore := (hsound.held slot hmem form hlookup).read hread
      refine Attempt.keeps_pure.mpr (Composing.keeps_bind.mpr (Composing.keeps_renderComposed ?_))
      refine (render_slot hadmissible htemplate (hsound.version slot hmem) huid hbefore).mono ?_ ?_
      · rintro composed _ ⟨rfl, hof⟩
        exact ⟨rfl, some slot, .kept rfl hof⟩
      · rintro _ rfl
        exact hfailed _ (.refl _)

/-! ### All templates -/

/-- What rendering templates one by one can come to, and the slots that come out. -/
inductive Renders (owner : Owner) (version : String → String) (slotFor : Template → Option Slot) :
    Ledger → List Template → List (Association × Composition.Rendition) → List Slot → Ledger →
      Prop where
  /-- No template is left. -/
  | nil {s : Ledger} : Renders owner version slotFor s [] [] [] s
  /-- A template is rendered, and then the others. -/
  | cons {s middle after : Ledger} {t : Template} {rest : List Template}
      {rendition : Composition.Rendition} {kept? : Option Slot}
      {renditions : List (Association × Composition.Rendition)} {kept : List Slot} :
      RendersOne owner version t (slotFor t) s rendition kept? middle →
      Renders owner version slotFor middle rest renditions kept after →
      Renders owner version slotFor s (t :: rest)
        ((⟨t, (slotFor t).map Slot.reference⟩, rendition) :: renditions) (kept?.toList ++ kept) after

variable {slotFor : Template → Option Slot}
  {renditions : List (Association × Composition.Rendition)}

theorem Renders.extends (h : Renders owner version slotFor s templates renditions kept after) :
    s.Extends after := by
  induction h with
  | nil => exact .refl _
  | cons hone _ ih => exact hone.extends.trans ih

theorem renderAll_keeps (hadmissible : ∀ t ∈ templates, t.Admissible version)
    (huid : composite.uid = owner.uid) (hsound : s.Sound owner version still slots)
    (hslot : ∀ t ∈ templates, ∀ slot, slotFor t = some slot →
      slot ∈ slots ∧ t.name = some slot.template ∧ s.Has slot.key)
    (hstill : still → ∀ t ∈ templates, slotFor t ≠ none) :
    (Composition.renderAll .standard environment
      (templates.map fun t => ⟨t, (slotFor t).map Slot.reference⟩)).Keeps Serves
        (Permits owner version still slots)
        (fun renditions c after => c = composite ∧
          ∃ kept, Renders owner version slotFor s templates renditions kept after)
        (fun after => after.Sound owner version still slots) composite s := by
  induction templates generalizing s with
  | nil => exact Composing.keeps_pure.mpr ⟨rfl, [], .nil⟩
  | cons t rest ih =>
    obtain ⟨hfirst, hrest⟩ := List.forall_mem_cons.mp hadmissible
    refine Composing.keeps_bind.mpr ((renderOne_keeps hfirst huid hsound
      (hslot t List.mem_cons_self) fun h => hstill h t List.mem_cons_self).mono ?_ fun _ => id)
    rintro rendition _ middle ⟨rfl, kept?, hone⟩
    have hhas (slot : Slot) : middle.Has slot.key ↔ s.Has slot.key := by
      rw [Has, hone.extends.lookup?, Has]
    refine Composing.keeps_bind.mpr ((ih hrest (hsound.extends hone.extends)
      (fun t' ht' slot hbound => ?_) fun h t' ht' => hstill h t' (List.mem_cons_of_mem _ ht')).mono
        ?_ fun _ => id)
    · obtain ⟨hmem, htemplate, hfull⟩ := hslot t' (List.mem_cons_of_mem _ ht') slot hbound
      exact ⟨hmem, htemplate, (hhas slot).mpr hfull⟩
    · rintro renditions _ after ⟨rfl, kept, hall⟩
      exact Composing.keeps_pure.mpr ⟨rfl, _, .cons hone hall⟩

end Ledger

end ResourceComposition
