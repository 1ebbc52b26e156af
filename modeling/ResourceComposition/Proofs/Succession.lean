import ResourceComposition.Proofs.Renditions

/-!
# The slots that come out of rendering

Rendering the templates yields new slots for the composite. They may take the place of the old ones:
every full slot is among them, new ones are empty, and templates and names still tell them apart.
If no template was skipped there is one slot for each template, in the order of the templates; and
if every template had its slot before, nothing changes.
-/

namespace ResourceComposition

open Resource

namespace Ledger

variable {owner : Owner} {version : String → String} {still : Prop} {slots kept : List Slot}
  {slot : Slot} {s middle after : Ledger} {t : Template} {templates : List Template}
  {slot? kept? : Option Slot} {rendition : Composition.Rendition}
  {slotFor : Template → Option Slot} {renditions : List (Association × Composition.Rendition)}

/-- A slot is new: its name was given out in the meantime, and no object has it. -/
structure New (version : String → String) (slot : Slot) (s after : Ledger) : Prop where
  /-- The template tells the group and version. -/
  version : slot.apiVersion = version slot.template
  /-- The name was not given out before. -/
  fresh : s.Fresh slot.name
  /-- The name was given out. -/
  given : slot.name ∈ after.given

theorem New.mono {s' after' : Ledger} (h : New version slot s after) (hs : s'.Extends s)
    (hafter : after.Extends after') : New version slot s' after' where
  version := h.version
  fresh := ⟨fun hmem => h.fresh.1 (hs.given _ hmem), fun key form hform =>
    h.fresh.2 key form (by rwa [hs.lookup?])⟩
  given := hafter.given _ h.given

/-! ### One template -/

theorem RendersOne.origin (h : RendersOne owner version t slot? s rendition kept? after)
    (hkept : kept? = some slot) :
    slot? = some slot ∨ slot? = none ∧ t.name = some slot.template ∧ New version slot s after := by
  subst hkept
  cases h with
  | kept hslot _ => exact .inl hslot
  | new hnone _ htemplate hversion hfresh _ hgiven =>
    exact .inr ⟨hnone, htemplate, hversion, hfresh, hgiven⟩
  | skipped _ => exact .inl rfl

theorem RendersOne.keptReference (h : RendersOne owner version t slot? s rendition kept? after) :
    Composition.keptReference (⟨t, slot?.map Slot.reference⟩, rendition) =
      kept?.map Slot.reference := by
  cases h with
  | kept _ hof => exact congrArg some hof.reference
  | new _ hof => exact congrArg some hof.reference
  | skipped _ => rfl

/-! ### All templates -/

theorem Renders.references (h : Renders owner version slotFor s templates renditions kept after) :
    renditions.filterMap Composition.keptReference = kept.map Slot.reference := by
  induction h with
  | nil => rfl
  | @cons _ _ _ _ _ _ kept? _ _ hone _ ih =>
    have hkept := hone.keptReference
    rw [List.filterMap_cons, hkept, ih]
    cases kept? <;> rfl

/-- A slot that comes out was that of a template, or is new. -/
theorem Renders.origin (h : Renders owner version slotFor s templates renditions kept after)
    (hslot : slot ∈ kept) :
    (∃ t ∈ templates, slotFor t = some slot) ∨ New version slot s after := by
  induction h with
  | nil => cases hslot
  | cons hone hall ih =>
    obtain hslot | hslot := List.mem_append.mp hslot
    · obtain hold | ⟨-, -, hnew⟩ := hone.origin (Option.mem_toList.mp hslot)
      · exact .inl ⟨_, List.mem_cons_self, hold⟩
      · exact .inr (hnew.mono (.refl _) hall.extends)
    · obtain ⟨t, ht, hold⟩ | hnew := ih hslot
      · exact .inl ⟨t, List.mem_cons_of_mem _ ht, hold⟩
      · exact .inr (hnew.mono hone.extends (.refl _))

/-- The slot of a template comes out again. -/
theorem Renders.mem_kept (h : Renders owner version slotFor s templates renditions kept after)
    (ht : t ∈ templates) (hslot : slotFor t = some slot) : slot ∈ kept := by
  induction h with
  | nil => cases ht
  | cons hone _ ih =>
    obtain rfl | ht := List.mem_cons.mp ht
    · refine List.mem_append_left _ (Option.mem_toList.mpr ?_)
      cases hone with
      | kept hkept _ => exact hkept.symm.trans hslot
      | new hnone => simp [hnone] at hslot
      | skipped _ => exact hslot
    · exact List.mem_append_right _ (ih ht)

/-- The templates of the slots are among the templates, in their order. -/
theorem Renders.sublist (h : Renders owner version slotFor s templates renditions kept after)
    (hslot : ∀ t ∈ templates, ∀ slot, slotFor t = some slot → t.name = some slot.template) :
    (kept.map fun slot => some slot.template).Sublist (templates.map (·.name)) := by
  induction h with
  | nil => exact .slnil
  | @cons _ _ _ t _ _ kept? _ _ hone _ ih =>
    have hrest := ih fun t' ht' => hslot t' (List.mem_cons_of_mem _ ht')
    cases kept? with
    | none => exact hrest.cons _
    | some slot =>
      have htemplate : t.name = some slot.template := by
        obtain hold | ⟨-, hname, -⟩ := hone.origin rfl
        · exact hslot t List.mem_cons_self slot hold
        · exact hname
      rw [List.map_cons, htemplate]
      exact hrest.cons_cons _

theorem Renders.names (h : Renders owner version slotFor s templates renditions kept after)
    (hsound : s.Sound owner version still slots) (hnames : (templates.map (·.name)).Nodup)
    (hslot : ∀ t ∈ templates, ∀ slot, slotFor t = some slot →
      slot ∈ slots ∧ t.name = some slot.template) : (kept.map Slot.name).Nodup := by
  induction h with
  | nil => exact .nil
  | @cons s middle _ t rest _ kept? _ kept hone hall ih =>
    obtain ⟨hfirst, hrest⟩ := List.nodup_cons.mp hnames
    have hkept := ih (hsound.extends hone.extends) hrest fun t' ht' =>
      hslot t' (List.mem_cons_of_mem _ ht')
    cases kept? with
    | none => exact hkept
    | some slot =>
      refine List.nodup_cons.mpr ⟨fun hmem => ?_, hkept⟩
      obtain ⟨other, hother, hname⟩ := List.mem_map.mp hmem
      obtain hold | ⟨-, -, hnew⟩ := hone.origin rfl
      · obtain ⟨hmem, htemplate⟩ := hslot t List.mem_cons_self slot hold
        obtain ⟨t', ht', hold'⟩ | hnew' := hall.origin hother
        · -- Two old slots of one name are the same, and so are their templates.
          obtain ⟨hmem', htemplate'⟩ := hslot t' (List.mem_cons_of_mem _ ht') other hold'
          obtain rfl := List.inj_on_of_nodup_map hsound.names hmem' hmem hname
          exact hfirst (List.mem_map.mpr ⟨t', ht', htemplate'.trans htemplate.symm⟩)
        · exact hnew'.fresh.1 (hone.extends.given _ (hname ▸ hsound.given slot hmem))
      · obtain ⟨t', ht', hold'⟩ | hnew' := hall.origin hother
        · obtain ⟨hmem', -⟩ := hslot t' (List.mem_cons_of_mem _ ht') other hold'
          exact hnew.fresh.1 (hname ▸ hsound.given other hmem')
        · exact hnew'.fresh.1 (hname ▸ hnew.given)

/-- If every template had a slot before, these are the slots that come out. -/
theorem Renders.unchanged (h : Renders owner version slotFor s templates renditions kept after)
    (hbound : ∀ t ∈ templates, slotFor t ≠ none) : kept.map some = templates.map slotFor := by
  induction h with
  | nil => rfl
  | @cons _ _ _ t _ _ kept? _ _ hone _ ih =>
    have hkept : kept? = slotFor t := by
      cases hone with
      | kept hslot _ => exact hslot.symm
      | new hnone => exact absurd hnone (hbound t List.mem_cons_self)
      | skipped _ => rfl
    obtain ⟨slot, hslot⟩ := Option.ne_none_iff_exists'.mp (hbound t List.mem_cons_self)
    rw [List.map_append, ih fun t' ht' => hbound t' (List.mem_cons_of_mem _ ht'), hkept, hslot,
      List.map_cons, hslot]
    rfl

/-- What was rendered goes to the slots that come out. -/
theorem Renders.rendered (h : Renders owner version slotFor s templates renditions kept after)
    {composed : Resource} (hmem : (t, composed) ∈ Composition.renderedOnly renditions) :
    t ∈ templates ∧ ∃ slot ∈ kept, slot.Of owner.uid composed := by
  induction h with
  | nil => cases hmem
  | @cons _ _ _ t' rest _ kept? renditions kept hone _ ih =>
    have hlater (hmem : (t, composed) ∈ Composition.renderedOnly renditions) :
        t ∈ t' :: rest ∧ ∃ slot ∈ kept?.toList ++ kept, slot.Of owner.uid composed := by
      obtain ⟨ht, slot, hslot, hof⟩ := ih hmem
      exact ⟨List.mem_cons_of_mem _ ht, slot, List.mem_append_right _ hslot, hof⟩
    cases hone with
    | skipped _ => exact hlater hmem
    | kept _ hof =>
      obtain heq | hmem := List.mem_cons.mp hmem
      · obtain ⟨rfl, rfl⟩ := Prod.mk.inj heq
        exact ⟨List.mem_cons_self, _, List.mem_append_left _ (by simp), hof⟩
      · exact hlater hmem
    | new _ hof =>
      obtain heq | hmem := List.mem_cons.mp hmem
      · obtain ⟨rfl, rfl⟩ := Prod.mk.inj heq
        exact ⟨List.mem_cons_self, _, List.mem_append_left _ (by simp), hof⟩
      · exact hlater hmem

/-- Reports on templates that were skipped are warnings. -/
theorem type_warnings {renditions : List (Association × Composition.Rendition)} {place : Nat} :
    ∀ event ∈ Composition.warnings place renditions, event.type = .warning := by
  induction renditions generalizing place with
  | nil => nofun
  | cons entry rest ih =>
    obtain ⟨a, _ | _⟩ := entry
    · exact ih
    · exact List.forall_mem_cons.mpr ⟨rfl, ih⟩

/-- If no template was skipped, there is a slot for each, and all slots get their resources. -/
theorem Renders.complete (h : Renders owner version slotFor s templates renditions kept after)
    (hslot : ∀ t ∈ templates, ∀ slot, slotFor t = some slot → t.name = some slot.template)
    {place : Nat} (hwarnings : Composition.warnings place renditions = []) :
    (kept.map fun slot => some slot.template) = templates.map (·.name) ∧
      ∀ slot ∈ kept, ∃ entry ∈ Composition.renderedOnly renditions, slot.Of owner.uid entry.2 := by
  induction h generalizing place with
  | nil => exact ⟨rfl, nofun⟩
  | @cons _ _ _ t rest _ kept? renditions kept hone _ ih =>
    have hrest (hwarnings : Composition.warnings (place + 1) renditions = []) :=
      ih (fun t' ht' => hslot t' (List.mem_cons_of_mem _ ht')) hwarnings
    have hone' (slot : Slot) (composed : Resource) (hname : t.name = some slot.template)
        (hof : slot.Of owner.uid composed)
        (hwarnings : Composition.warnings (place + 1) renditions = []) :
        ((slot :: kept).map fun slot => some slot.template) = (t :: rest).map (·.name) ∧
          ∀ other ∈ slot :: kept, ∃ entry ∈ (t, composed) :: Composition.renderedOnly renditions,
            other.Of owner.uid entry.2 := by
      obtain ⟨htemplates, hall⟩ := hrest hwarnings
      refine ⟨by rw [List.map_cons, List.map_cons, htemplates, hname], ?_⟩
      intro other hother
      obtain rfl | hother := List.mem_cons.mp hother
      · exact ⟨_, List.mem_cons_self, hof⟩
      · obtain ⟨entry, hentry, hof⟩ := hall other hother
        exact ⟨entry, List.mem_cons_of_mem _ hentry, hof⟩
    cases hone with
    | skipped _ => cases hwarnings
    | kept hold hof => exact hone' _ _ (hslot t List.mem_cons_self _ hold) hof hwarnings
    | new _ hof hname => exact hone' _ _ hname hof hwarnings

/-- The slots that come out may take the place of the old ones. -/
theorem Renders.succeeds (h : Renders owner version slotFor s templates renditions kept after)
    (hsound : s.Sound owner version still slots) (hnames : (templates.map (·.name)).Nodup)
    (hslot : ∀ t ∈ templates, ∀ slot, slotFor t = some slot →
      slot ∈ slots ∧ t.name = some slot.template)
    (hcover : ∀ slot ∈ slots, s.Has slot.key → ∃ t ∈ templates, slotFor t = some slot)
    (hstill : still → slots.map some = templates.map slotFor) :
    after.Succeeds owner version still slots kept := by
  have horigin (slot : Slot) (hkept : slot ∈ kept) : slot ∈ slots ∨ New version slot s after :=
    (h.origin hkept).imp_left fun ⟨t, ht, hold⟩ => (hslot t ht slot hold).1
  refine {
    version := fun slot hkept => (horigin slot hkept).elim (hsound.version slot) (·.version)
    templates := ?_
    names := h.names hsound hnames hslot
    given := fun slot hkept => (horigin slot hkept).elim
      (fun hold => h.extends.given _ (hsound.given slot hold)) (·.given)
    apart := fun slot hkept => (horigin slot hkept).elim (hsound.apart slot) fun hnew heq => ?_
    empty := fun slot hkept => (horigin slot hkept).imp_right fun hnew => ?_
    covered := fun slot hold hhas => ?_
    still := fun hs => ?_ }
  · have hsub := h.sublist fun t ht slot hold => (hslot t ht slot hold).2
    have hnodup := hnames.sublist hsub
    rw [show (kept.map fun slot => some slot.template) = (kept.map Slot.template).map some by
      rw [List.map_map]; rfl] at hnodup
    exact hnodup.of_map _
  · -- The composite is stored, so a fresh name is not its name.
    obtain ⟨form, hform, -⟩ := hsound.composite
    exact hnew.fresh.2 owner.key form hform heq.symm
  · rw [h.extends.lookup?]
    refine Option.eq_none_iff_forall_ne_some.mpr fun form hform => ?_
    exact hnew.fresh.2 slot.key form hform rfl
  · rw [Has, h.extends.lookup?] at hhas
    obtain ⟨t, ht, hold⟩ := hcover slot hold hhas
    exact h.mem_kept ht hold
  · have hbound : ∀ t ∈ templates, slotFor t ≠ none := by
      intro t ht hnone
      have hmem : slotFor t ∈ slots.map some := hstill hs ▸ List.mem_map_of_mem ht
      simp [hnone] at hmem
    have hinj : Function.Injective (some : Slot → Option Slot) := fun _ _ => Option.some.inj
    exact List.map_injective_iff.mpr hinj ((h.unchanged hbound).trans (hstill hs).symm)

end Ledger

end ResourceComposition
