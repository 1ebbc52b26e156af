import ResourceComposition.Proofs.Application
import ResourceComposition.Proofs.Course
import ResourceComposition.Proofs.Succession

/-!
# One pass of composition

Each step of a composition keeps the invariant, whatever the store refuses. The slots change in one
place only, where the composite is written with its new references; before that nothing new was
created, and after that nothing is created that the composite does not refer to.
-/

namespace ResourceComposition

open Resource

namespace Ledger

variable {owner : Owner} {version : String → String} {still : Prop} {slots kept : List Slot}
  {slot : Slot} {s after : Ledger} {t : Template}
  {composite composed r : Resource} {environment : Json} {allowed : Call → Ledger → Prop}

/-- The composite at hand is the one that is stored, as far as it matters. -/
structure AtHand (owner : Owner) (slots : List Slot) (composite : Resource) : Prop where
  /-- It has the identity of the composite. -/
  of : owner.Of composite
  /-- It refers to the slots, in their order. -/
  spec : composite.spec.Refers (slots.map Slot.reference)

/-- However a pass ends, the state is sound; standing still, the slots are those from before. -/
def Rests (owner : Owner) (version : String → String) (still : Prop) (slots : List Slot)
    (s : Ledger) : Prop :=
  ∃ kept, s.Sound owner version still kept ∧ (still → kept = slots)

theorem Sound.rests (h : s.Sound owner version still slots) : Rests owner version still slots s :=
  ⟨slots, h, fun _ => rfl⟩

/-! ### Writing the composite -/

/-- What is wanted of writing the composite: it refers to its slots, as many of them as before are
full, and if all were, then everything stands still. -/
structure Written (owner : Owner) (version : String → String) (still : Prop) (kept : List Slot)
    (s : Ledger) (composite : Resource) (after : Ledger) : Prop where
  /-- The state is sound. -/
  sound : after.Sound owner version still kept
  /-- The composite at hand is the one that was stored. -/
  atHand : AtHand owner kept composite
  /-- The slots are as full as before. -/
  has : ∀ slot ∈ kept, after.Has slot.key ↔ s.Has slot.key
  /-- Full slots may stand still. -/
  settled : (∀ slot ∈ kept, s.Has slot.key) → after.Sound owner version True kept

/-- The composite is written, and refers to slots that come after those before. -/
theorem applyComposite_keeps (hsound : s.Sound owner version still slots)
    (hkept : s.Succeeds owner version still slots kept) (hcomposite : AtHand owner kept composite) :
    Composition.applyComposite.Keeps Serves (Permits owner version still slots)
      (fun _ => Written owner version still kept s) (Rests owner version still slots) composite s := by
  obtain ⟨form, hform, hon, hspec, -⟩ := hsound.composite
  have hkey : composite.key = owner.key := hcomposite.of.toOf.key
  have hon' : owner.On (applied composite form) := (hon.patched hcomposite.of).versioned
  have hspec' : (applied composite form).spec.Refers (kept.map Slot.reference) := by
    rw [applied, Json.spec_versioned]
    exact hcomposite.spec.patched hcomposite.of.proper hspec.sorted
  have hsound' := hsound.put_composite hkept hon' hspec'.holds (fun _ => hspec')
    fun h slot hslot => hsound.full h slot (hkept.still h ▸ hslot)
  refine Composing.keeps_bind.mpr (Composing.keeps_get.mpr (Composing.keeps_bind.mpr
    (Composing.keeps_during.mpr (apply_keeps (fun hunnamed => ?_) (hsound.permits trivial)
      hsound.rests ?_ ?_))))
  · exact ⟨hcomposite.of.nameable hunnamed, by rw [hkey, hform]; nofun⟩
  · rw [hkey, hform]
    rintro ⟨⟩
  · intro form' hform'
    rw [hkey] at hform' ⊢
    obtain rfl := Option.some.inj (hform.symm.trans hform')
    refine ⟨hsound.permits trivial, ⟨kept, hsound', hkept.still⟩, fun stored hread => ?_⟩
    obtain ⟨hof, hstored⟩ := hon'.read hread
    refine Composing.keeps_setComposite.mpr ⟨hsound', ⟨hof, hstored ▸ hspec'⟩, fun slot hslot => ?_,
      fun hfull => ?_⟩
    · rw [Has, lookup?_put, if_neg (key_ne_of_name_ne (hkept.apart slot hslot)), Has]
    · exact hsound.put_composite hkept hon' hspec'.holds (fun _ => hspec') fun _ => hfull

theorem persistReferences_keeps (hsound : s.Sound owner version still slots)
    (hkept : s.Succeeds owner version still slots kept) (hof : owner.Of composite)
    (hspec : composite.spec.Holds (slots.map Slot.reference)) :
    (Composition.persistReferences (kept.map Slot.reference)).Keeps Serves
      (Permits owner version still slots) (fun _ => Written owner version still kept s)
      (Rests owner version still slots) composite s := by
  obtain ⟨fields, hset, hrefers⟩ := setResourceRefs_eq_ok hspec (kept.map Slot.reference)
  refine Composing.keeps_bind.mpr (Composing.keeps_get.mpr (Composing.keeps_bind.mpr
    (Composing.keeps_during.mpr (Attempt.keeps_ofExcept.mpr ?_))))
  rw [hset]
  refine Composing.keeps_bind.mpr (Composing.keeps_setComposite.mpr
    (applyComposite_keeps hsound hkept ⟨?_, ?_⟩))
  · exact {
      toOf := hof.toOf.insert (by simp [headerNames])
      uid := hof.uid
      nameable := hof.nameable
      free := hof.free }
  · simpa [Resource.spec] using hrefers

/-- What a pass leaves behind when it succeeds. -/
structure Persisted (owner : Owner) (version : String → String) (still : Prop) (slots : List Slot)
    (s after : Ledger) : Prop where
  /-- The state is sound. -/
  sound : after.Sound owner version still slots
  /-- Full slots may stand still. -/
  settled : (∀ slot ∈ slots, s.Has slot.key) → after.Sound owner version True slots

theorem persistComposite_keeps (hsound : s.Sound owner version still slots)
    (hcomposite : AtHand owner slots composite) :
    Composition.persistComposite.Keeps Serves (Permits owner version still slots)
      (fun _ _ => Persisted owner version still slots s) (Rests owner version still slots)
      composite s := by
  refine Composing.keeps_bind.mpr (Composing.keeps_get.mpr (Composing.keeps_bind.mpr
    ((applyComposite_keeps hsound hsound.succeeds hcomposite).mono ?_ fun _ => id)))
  intro _ stored middle hwritten
  cases composite.body.get? "status" with
  | none => exact Composing.keeps_pure.mpr ⟨hwritten.sound, hwritten.settled⟩
  | some status =>
    refine Composing.keeps_bind.mpr (Composing.keeps_get.mpr ?_)
    split
    · exact Composing.keeps_pure.mpr ⟨hwritten.sound, hwritten.settled⟩
    · refine Composing.keeps_bind.mpr (Composing.keeps_during.mpr (Attempt.keeps_asking.mpr
        ⟨hwritten.sound.permits trivial, fun reply after hreply => ?_⟩))
      obtain ⟨rfl, e, rfl⟩ | ⟨form, hform, rfl, rfl⟩ := of_patchStatus hreply
      · exact hwritten.sound.rests
      · rw [show stored.key = owner.key from hwritten.atHand.of.toOf.key] at hform ⊢
        have hafter := hwritten.sound.put_status hform (.object [("status", status)])
        cases hread : ofJson (Memory.versioned (form.mergePatch
            (Memory.statusOnly (.object [("status", status)])))) with
        | error e => exact hafter.rests
        | ok c =>
          exact Persisted.mk hafter fun hfull => (hwritten.settled hfull).put_status hform _

/-! ### Applying composed resources -/

/-- Patching the status of the composite leaves the rest of it alone. -/
theorem AtHand.patched {c : Resource} (h : AtHand owner slots composite)
    (ht : t.Admissible version)
    (hpatched : Patch.applyToComposite t.patches composed composite = .ok c) :
    AtHand owner slots c := by
  obtain ⟨hproper, hchanged⟩ := Patch.applyTo_changedIn (· = "status")
    (by simp [headerNames]) (fun p hp hsource => ht.composite p hp (by
      cases hptype : p.type <;> simp [Patch.compositeSource, hptype] at hsource ⊢))
    h.of.proper hpatched
  have hspec : c.spec = composite.spec := by
    rw [Resource.spec, hchanged.body "spec" (by simp [headerNames]) (by decide), Resource.spec]
  refine ⟨{
    toOf := h.of.toOf.changed hproper hchanged
    uid := hchanged.metadata.uid.trans h.of.uid
    nameable := fun hunnamed => hchanged.metadata.generateName.trans (h.of.nameable ?_)
    free := hchanged.metadata.owners ▸ h.of.free }, hspec ▸ h.spec⟩
  rwa [Metadata.unnamed, hchanged.metadata.name] at hunnamed

theorem settleOne_keeps (hsound : s.Sound owner version still slots)
    (hcomposite : AtHand owner slots composite) (ht : t.Admissible version) (hslot : slot ∈ slots)
    (hof : slot.Of owner.uid composed) :
    (Composition.settleOne .standard environment t composed).Keeps Serves
      (Permits owner version still slots)
      (fun _ c after => after.Sound owner version still slots ∧ AtHand owner slots c ∧
        after.Has composed.key ∧ ∀ key, s.Has key → after.Has key)
      (fun after => after.Sound owner version still slots) composite s := by
  have hkey : composed.key = slot.key := hof.key
  have hput (form : Json) (key : ObjectKey) (hhas : s.Has key) :
      (s.put composed.key form).Has key := by
    rw [Has, lookup?_put]
    split
    · rfl
    · exact hhas
  have hself (form : Json) : (s.put composed.key form).Has composed.key := by
    rw [Has, lookup?_put, if_pos rfl]
    rfl
  refine settleOne_of_apply (fun _ _ _ h => h.1.permits trivial) (fun _ _ h => h.1) hsound
    fun c hc => apply_keeps (by simp [hof.named]) (hsound.permits trivial) hsound (fun hlookup => ?_)
      fun form hform => ?_
  · have hnot : ¬ still := fun h => by
      have := hsound.full h slot hslot
      rw [Has, ← hkey, hlookup] at this
      cases this
    refine ⟨⟨slots, hsound, fun h => absurd h hnot⟩, ?_, hcomposite.patched ht hc, hself _, hput _⟩
    rw [hkey]
    exact hsound.put_slot hslot hof.fresh.encode
  · have hafter : (s.put composed.key (applied composed form)).Sound owner version still slots := by
      rw [hkey] at hform ⊢
      exact hsound.put_slot hslot ((hsound.held slot hslot form hform).patched hof).versioned
    exact ⟨hsound.permits trivial, hafter, fun stored _ =>
      ⟨hafter, hcomposite.patched ht hc, hself _, hput _⟩⟩

theorem settleAll_keeps {entries : List (Template × Resource)}
    (hsound : s.Sound owner version still slots) (hcomposite : AtHand owner slots composite)
    (hentries : ∀ entry ∈ entries, entry.1.Admissible version ∧
      ∃ slot ∈ slots, slot.Of owner.uid entry.2) :
    (Composition.settleAll .standard environment entries).Keeps Serves
      (Permits owner version still slots)
      (fun _ c after => after.Sound owner version still slots ∧ AtHand owner slots c ∧
        (∀ entry ∈ entries, after.Has entry.2.key) ∧ ∀ key, s.Has key → after.Has key)
      (fun after => after.Sound owner version still slots) composite s := by
  induction entries generalizing composite s with
  | nil => exact Composing.keeps_pure.mpr ⟨hsound, hcomposite, List.forall_mem_nil _, fun _ => id⟩
  | cons entry rest ih =>
    obtain ⟨t, composed⟩ := entry
    obtain ⟨⟨ht, slot, hslot, hof⟩, hrest⟩ := List.forall_mem_cons.mp hentries
    rw [Composition.settleAll]
    refine Composing.keeps_bind.mpr ((settleOne_keeps hsound hcomposite ht hslot hof).mono ?_
      fun _ => id)
    rintro settled c middle ⟨hmiddle, hc, hhas, hmono⟩
    refine Composing.keeps_bind.mpr ((ih hmiddle hc hrest).mono ?_ fun _ => id)
    rintro more c' after ⟨hafter, hc', hall, hmono'⟩
    exact Composing.keeps_pure.mpr ⟨hafter, hc', List.forall_mem_cons.mpr ⟨hmono' _ hhas, hall⟩,
      fun key hkey => hmono' key (hmono key hkey)⟩

/-! ### The whole pass -/

theorem Permits.of_kept {request : Call} (h : Permits owner version still kept request s)
    (hkept : still → kept = slots) : Permits owner version still slots request s := by
  obtain ⟨kept', hsound, hstill⟩ := h
  exact ⟨kept', hsound, fun hs => ⟨(hstill hs).1.trans (hkept hs), (hstill hs).2⟩⟩

theorem Rests.of_kept (h : Rests owner version still kept s) (hkept : still → kept = slots) :
    Rests owner version still slots s := by
  obtain ⟨kept', hsound, hstill⟩ := h
  exact ⟨kept', hsound, fun hs => (hstill hs).trans (hkept hs)⟩

/-- Carrying out what was rendered onto slots that come after those before. If all of them get their
resources, they stand still. -/
theorem carryOut_keeps {renditions : List (Association × Composition.Rendition)}
    (hsound : s.Sound owner version still slots) (hkept : s.Succeeds owner version still slots kept)
    (hof : owner.Of composite) (hspec : composite.spec.Holds (slots.map Slot.reference))
    (hreferences : renditions.filterMap Composition.keptReference = kept.map Slot.reference)
    (hrendered : ∀ entry ∈ Composition.renderedOnly renditions, entry.1.Admissible version ∧
      ∃ slot ∈ kept, slot.Of owner.uid entry.2) :
    (Composition.carryOut .standard environment renditions).Keeps Serves
      (Permits owner version still slots)
      (fun outcome _ after => outcome.events = Composition.warnings 0 renditions ∧
        after.Sound owner version still kept ∧
        ((∀ slot ∈ kept, ∃ entry ∈ Composition.renderedOnly renditions, slot.Of owner.uid entry.2) →
          after.Sound owner version True kept))
      (Rests owner version still slots) composite s := by
  have hwithin (request : Call) (s : Ledger) (h : Permits owner version still kept request s) :
      Permits owner version still slots request s := h.of_kept hkept.still
  refine Composing.keeps_bind.mpr ?_
  rw [hreferences]
  refine (persistReferences_keeps hsound hkept hof hspec).mono ?_ fun _ => id
  rintro - c persisted ⟨hpersisted, hatHand, -, -⟩
  refine Composing.keeps_bind.mpr (((settleAll_keeps hpersisted hatHand hrendered).weaken hwithin).mono
    ?_ fun _ h => h.rests.of_kept hkept.still)
  rintro settled c' applied ⟨happlied, hatHand', hhas, -⟩
  refine Composing.keeps_bind.mpr (((persistComposite_keeps happlied hatHand').weaken hwithin).mono
    ?_ fun _ h => h.of_kept hkept.still)
  rintro - _ after ⟨hafter, hsettled⟩
  refine Composing.keeps_pure.mpr ⟨rfl, hafter, fun hfilled => hsettled fun slot hslot => ?_⟩
  obtain ⟨entry, hentry, hentryOf⟩ := hfilled slot hslot
  exact hentryOf.key ▸ hhas entry hentry

/-- What a pass leaves behind when it succeeds: a sound state, and if no template was skipped, one
that stands still with a full slot for each template. -/
structure Composed (owner : Owner) (version : String → String) (still : Prop) (slots : List Slot)
    (revision : Revision) (outcome : Outcome) (s : Ledger) : Prop where
  /-- The state is sound. -/
  rests : Rests owner version still slots s
  /-- Without a warning, there is a full slot for each template. -/
  settled : (∀ event ∈ outcome.events, event.type ≠ .warning) →
    ∃ kept, s.Sound owner version True kept ∧
      ∀ templates, revision.inlinedTemplates = .ok templates →
        templates.map (·.name) = kept.map fun slot => some slot.template

theorem compose_keeps {request : CompositionRequest}
    (hadmissible : request.revision.Admissible version)
    (hsound : s.Sound owner version still slots) (hof : owner.Of composite)
    (hspec : composite.spec.Holds (slots.map Slot.reference))
    (hstill : still → ∀ templates, request.revision.inlinedTemplates = .ok templates →
      templates.map (·.name) = slots.map fun slot => some slot.template) :
    (Composition.compose .standard request).Keeps Serves (Permits owner version still slots)
      (fun outcome _ => Composed owner version still slots request.revision outcome)
      (Rests owner version still slots) composite s := by
  rw [Composition.compose_eq]
  refine Composing.keeps_bind.mpr (Composing.keeps_bind.mpr (Composing.keeps_during.mpr
    (Attempt.keeps_ofExcept.mpr ?_)))
  cases hinlined : request.revision.inlinedTemplates with
  | error e => exact hsound.rests
  | ok templates =>
    obtain ⟨hall, hnames⟩ := hadmissible templates hinlined
    have hmatch (h : still) : templates.map (·.name) = slots.map fun slot => some slot.template :=
      hstill h templates hinlined
    refine Composing.keeps_bind.mpr (Composing.keeps_get.mpr (Composing.keeps_bind.mpr
      (Composing.keeps_during.mpr ((byName_binds hof hspec (fun t ht => ?_) hnames
        (fun h slot hslot => ?_) hsound).mono ?_ fun _ h => h.rests))))
    · obtain ⟨name, hname, -⟩ := (hall t ht).named
      simp [hname]
    · rw [hmatch h]
      exact List.mem_map_of_mem hslot
    · rintro associations bound ⟨hsound, hmatched, rfl⟩
      -- From here on a template is bound to its slot as the store shows it now.
      have hslot (t : Template) (slot : Slot) (h : bound.slotOf slots t.name = some slot) :
          slot ∈ slots ∧ t.name = some slot.template ∧ bound.Has slot.key := by
        obtain ⟨hmem, htemplate, hhas⟩ := slotOf_eq_some h
        exact ⟨hmem, htemplate.symm, hhas⟩
      have hstands (h : still) :
          slots.map some = templates.map fun t => bound.slotOf slots t.name :=
        map_slotOf hsound (hsound.full h) (hmatch h)
      refine (renderAll_keeps hall hof.uid_eq hsound (fun t _ => hslot t) fun h t ht hnone => ?_).mono
        ?_ fun _ h => h.rests
      · have hmem : bound.slotOf slots t.name ∈ slots.map some :=
          hstands h ▸ List.mem_map_of_mem ht
        simp [hnone] at hmem
      · rintro renditions _ rendered ⟨rfl, kept, hrenders⟩
        have hkept : rendered.Succeeds owner version still slots kept :=
          hrenders.succeeds hsound hnames
            (fun t _ slot h => ⟨(hslot t slot h).1, (hslot t slot h).2.1⟩)
            (fun slot hmem hhas => by
              obtain ⟨t, ht, hname⟩ := List.mem_map.mp (hmatched slot hmem hhas)
              exact ⟨t, ht, by rw [hname]; exact slotOf_of_mem hsound hmem hhas⟩) hstands
        have hrendered (entry : Template × Resource)
            (hentry : entry ∈ Composition.renderedOnly renditions) :
            entry.1.Admissible version ∧ ∃ slot ∈ kept, slot.Of owner.uid entry.2 :=
          (hrenders.rendered hentry).imp_left (hall _)
        refine (carryOut_keeps (hsound.extends hrenders.extends) hkept hof hspec hrenders.references
          hrendered).mono ?_ fun _ => id
        rintro outcome _ after ⟨hevents, hafter, hsettled⟩
        refine ⟨⟨kept, hafter, hkept.still⟩, fun hwarnings => ?_⟩
        -- All events are warnings, so there are none.
        rw [hevents] at hwarnings
        obtain ⟨hcomplete, hfilled⟩ :=
          hrenders.complete (fun t _ slot h => (hslot t slot h).2.1)
            (List.eq_nil_iff_forall_not_mem.mpr fun event hevent =>
              hwarnings event hevent (type_warnings event hevent))
        refine ⟨kept, hsettled hfilled, fun templates' htemplates' => ?_⟩
        obtain rfl : templates = templates' := Except.ok.inj (hinlined.symm.trans htemplates')
        exact hcomplete.symm

end Ledger

end ResourceComposition
