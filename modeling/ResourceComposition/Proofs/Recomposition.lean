import ResourceComposition.Proofs.Runs

/-!
# Composing again

Once a pass has gone through without a warning, a composite stands still: the next pass with the
same revision finds every resource that it looks for. It creates nothing, not even to learn a name,
and it deletes nothing. The list of references stays as it was written, one for each template.
-/

namespace ResourceComposition

open Resource

namespace Ledger

/-- A composite has a resource for each template, and refers to them in the order of the
templates. -/
structure Complete (composite : Resource) (templates : List Template) (references : List Reference)
    (s : Ledger) : Prop where
  /-- The list of references stands in the stored composite. -/
  written : ∃ form, s.lookup? composite.key = some form ∧
    form.get? referencesPath = .ok (some (.array (references.map Reference.encode)))
  /-- Each reference is to an object that is there, and that the composite controls on behalf of
  the template. -/
  each : List.Forall₂ (fun t reference => s.Has reference.key ∧
    ∀ r, s.stored? reference.key = some r →
      composite.controls r = true ∧ r.templateName? = t.name) templates references

variable {owner : Owner} {version : String → String} {slots : List Slot} {s : Ledger}
  {composite : Resource} {templates : List Template}

/-- A state that stands still is complete. -/
theorem Sound.complete (h : s.Sound owner version True slots) (hof : owner.Of composite)
    (hnames : templates.map (·.name) = slots.map fun slot => some slot.template) :
    s.Complete composite templates (slots.map Slot.reference) where
  written := by
    obtain ⟨form, hform, -, -, hrefers⟩ := h.composite
    exact ⟨form, by rw [hof.toOf.key]; exact hform, (hrefers trivial).get?⟩
  each := by
    rw [← List.forall₂_eq_eq_eq, List.forall₂_map_left_iff, List.forall₂_map_right_iff] at hnames
    have hslots : List.Forall₂ (fun slot t => slot ∈ slots ∧ t.name = some slot.template)
        slots templates := (List.forall₂_and_left slots templates).mpr ⟨fun _ => id, hnames.flip⟩
    refine List.forall₂_map_right_iff.mpr (hslots.flip.imp fun t slot ⟨hslot, hname⟩ =>
      ⟨h.full trivial slot hslot, fun r hstored => ?_⟩)
    obtain ⟨form, hform, hread⟩ := stored?_eq_some.mp hstored
    have hr := (h.held slot hslot form hform).read hread
    exact ⟨hof.controls_iff.mpr hr.owned, hr.templateName.trans hname.symm⟩

/-- After a pass that gave no warning, the next one with the same revision is quiet and changes no
reference, in whatever environment and however far it gets. -/
theorem Runs.recomposition_quiet {start middle after : Ledger} {first second : CompositionRequest}
    {before stored result : Resource} {outcome : Outcome} {log log' : List Exchange}
    {rest : Program (Except CompositionError Outcome × Resource)}
    (hstart : start.Starts composite) (hnameable : composite.Nameable)
    (hruns : Runs Serves version composite.reference start s)
    (hbefore : s.memory.get composite.reference = .ok (some before))
    (hadmissible : first.revision.Admissible version)
    (hfirst : Program.Reaches Serves ((Composition.compose .standard first).run before) s log
      (.done (.ok outcome, result)) middle)
    (hquiet : ∀ event ∈ outcome.events, event.type ≠ .warning)
    (hstored : middle.memory.get composite.reference = .ok (some stored))
    (hsame : second.revision = first.revision)
    (hsecond : Program.Reaches Serves ((Composition.compose .standard second).run stored) middle
      log' rest after) :
    (∀ exchange ∈ log', Quiet exchange.request) ∧
      ∃ references, ∀ templates, first.revision.inlinedTemplates = .ok templates →
        middle.Complete composite templates references ∧
          after.Complete composite templates references := by
  obtain ⟨owner, hof, hsound⟩ := hstart.sound hnameable version
  have hkey : composite.key = owner.key := hof.toOf.key
  obtain ⟨slots, hs⟩ := hruns.sound hkey hsound
  obtain ⟨hofBefore, hspec⟩ := hs.read hkey hbefore
  obtain ⟨kept, hmiddle, hnames⟩ :=
    ((compose_keeps hadmissible hs hofBefore hspec False.elim).reaches hfirst).settled hquiet
  obtain ⟨hofStored, hrefers⟩ := hmiddle.read hkey hstored
  have hkeeps := compose_keeps (hsame ▸ hadmissible) hmiddle hofStored hrefers
    fun _ templates htemplates => hnames templates (hsame ▸ htemplates)
  obtain ⟨kept', hafter, hstill⟩ := rests_of_keeps (hkeeps.reaches hsecond) fun _ _ _ h => h.rests
  obtain rfl := hstill trivial
  refine ⟨fun exchange hexchange => ?_, kept'.map Slot.reference, fun templates htemplates => ?_⟩
  · obtain ⟨_, _, -, hpermitted⟩ := hkeeps.allowed_of_mem hsecond hexchange
    exact (hpermitted trivial).2
  · exact ⟨hmiddle.complete hof (hnames templates htemplates),
      hafter.complete hof (hnames templates htemplates)⟩

/-- A pass against a handler that succeeds and has no event to tell. -/
theorem reaches_eventless (handler : Handler Ledger) (revision : Revision) {reference : Reference}
    (hget : s.memory.get reference = .ok (some composite))
    (hquiet : ((pass revision composite).run handler s).1.1.toOption.any
      (fun outcome => outcome.events.isEmpty) = true) :
    ∃ log outcome result, Program.Reaches handler.world (pass revision composite) s log
      (.done (.ok outcome, result)) (s.composed handler reference revision) ∧
        outcome.events = [] := by
  obtain ⟨log, hreaches⟩ := reaches_composed handler revision hget
  generalize ((pass revision composite).run handler s).1 = result at hquiet hreaches
  obtain ⟨e | outcome, result⟩ := result
  · cases hquiet
  · exact ⟨log, outcome, result, hreaches, List.isEmpty_iff.mp hquiet⟩

/-- Composed again, the loner keeps its box and its lid. -/
theorem settled_quiet :
    ∃ stored log rest references, built.memory.get loner.reference = .ok (some stored) ∧
      Program.Reaches Serves (pass pair stored) built log rest settled ∧
      (∀ exchange ∈ log, Quiet exchange.request) ∧
      settled.Complete loner pair.templates references := by
  have hworld : ∀ request s reply after, handler.world request s reply after →
      Serves request s reply after := fun _ _ _ _ => serves_handler
  have hnameable : loner.Nameable := by simp [Nameable, Metadata.unnamed, loner]
  obtain ⟨log, outcome, result, hfirst, hevents⟩ :=
    reaches_eventless handler pair loner_starts.stored
      (by decide +kernel)
  obtain ⟨stored, hstored⟩ : ∃ stored,
      built.memory.get loner.reference = .ok (some stored) := by
    have hread : (built.memory.get loner.reference).toOption.any Option.isSome = true := by
      decide +kernel
    generalize built.memory.get loner.reference = read at hread
    obtain e | stored? := read
    · cases hread
    · obtain ⟨stored, rfl⟩ := Option.isSome_iff_exists.mp hread
      exact ⟨stored, rfl⟩
  obtain ⟨log', hsecond⟩ := reaches_composed handler pair hstored
  obtain ⟨hquiet, references, hcomplete⟩ := Runs.recomposition_quiet loner_starts hnameable
    (.refl (holding loner)) loner_starts.stored pair_admissible (hfirst.mono hworld)
    (by simp [hevents]) hstored rfl (hsecond.mono hworld)
  exact ⟨stored, log', _, references, hstored, hsecond.mono hworld, hquiet, (hcomplete _ rfl).2⟩

end Ledger

end ResourceComposition
