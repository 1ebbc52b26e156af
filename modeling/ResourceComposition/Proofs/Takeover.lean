import ResourceComposition.Proofs.Guarding
import ResourceComposition.Proofs.Routes
import ResourceComposition.Proofs.Runs

/-!
# Taking nothing over

A pass of reconciliation is to take over no object that another controls. As long as the templates
leave identity and owners alone, it takes over none but the secret with the connection details of
the composite, which is replaced whoever controls it (`Ledger.reconcile_guards`).

Templates are free to do otherwise, and then more routes lead to the objects of others: to a
rendered resource that a base or a patch gave another name, or freed of its owners, and to what the
composite is turned into by a patch to its name. `Ledger.takes_over_iff` says for all of them when
they are taken.
-/

namespace ResourceComposition

open Resource

/-- An association is of templates and references that are given. -/
def Association.From (templates : List Template) (references : List Reference) (a : Association) :
    Prop :=
  a.template ∈ templates ∧ ∀ reference, a.reference = some reference → reference ∈ references

namespace Association

variable {templates : List Template} {references : List Reference}

theorem from_byOrder : ∀ a ∈ byOrder templates references, a.From templates references := by
  induction templates generalizing references with
  | nil => simp [byOrder]
  | cons t rest ih =>
    have hweaken (references' : List Reference) (hsub : ∀ r ∈ references', r ∈ references)
        (a : Association) (ha : a ∈ byOrder rest references') : a.From (t :: rest) references := by
      obtain ⟨htemplate, hreference⟩ := ih a ha
      exact ⟨List.mem_cons_of_mem _ htemplate, fun r hr => hsub r (hreference r hr)⟩
    cases references with
    | nil =>
      refine List.forall_mem_cons.mpr ⟨⟨List.mem_cons_self, ?_⟩, hweaken [] fun _ => id⟩
      rintro _ ⟨⟩
    | cons r more =>
      refine List.forall_mem_cons.mpr ⟨⟨List.mem_cons_self, ?_⟩,
        hweaken more fun _ => List.mem_cons_of_mem _⟩
      rintro _ ⟨⟩
      exact List.mem_cons_self

theorem from_bindName {name : String} {reference : Reference} {bound more : List Association}
    (h : bindName name reference bound = some more) (hreference : reference ∈ references)
    (hbound : ∀ a ∈ bound, a.From templates references) :
    ∀ a ∈ more, a.From templates references := by
  induction bound generalizing more with
  | nil => cases h
  | cons a rest ih =>
    obtain ⟨hfirst, hrest⟩ := List.forall_mem_cons.mp hbound
    rw [bindName] at h
    split at h
    · next bound hbind =>
      obtain rfl := Option.some.inj h
      exact List.forall_mem_cons.mpr ⟨hfirst, ih hbind hrest⟩
    · split at h
      · obtain rfl := Option.some.inj h
        refine List.forall_mem_cons.mpr ⟨⟨hfirst.1, ?_⟩, hrest⟩
        rintro _ ⟨⟩
        exact hreference
      · cases h

end Association

namespace Ledger

variable {s after : Ledger} {t : Template} {templates : List Template}
  {references : List Reference} {environment : Json} {composite c r : Resource}
  {defaultNamespace : Option String}

/-! ### Association -/

/-- What is wanted of an association: the store is in order, and nothing is made up. -/
def Associates (templates : List Template) (references : List Reference)
    (associations : List Association) (s : Ledger) : Prop :=
  s.Orderly ∧ ∀ a ∈ associations, a.From templates references

theorem collect_associates {fallback bound : List Association} {rest : List Reference}
    (hs : s.Orderly) (hrest : ∀ reference ∈ rest, reference ∈ references)
    (hfallback : ∀ a ∈ fallback, a.From templates references)
    (hbound : ∀ a ∈ bound, a.From templates references) :
    (Association.collect composite fallback rest bound).Keeps Serves (Spares composite)
      (Associates templates references) (fun _ => True) s := by
  induction rest generalizing bound s with
  | nil => exact Attempt.keeps_pure.mpr ⟨hs, hbound⟩
  | cons reference rest ih =>
    obtain ⟨hreference, hrest⟩ := List.forall_mem_cons.mp hrest
    rw [Association.collect]
    refine Attempt.keeps_bind.mpr (find_keeps (spares_of_changed? rfl) trivial
      (fun _ => ih hs hrest hbound) fun form found _ _ => ?_)
    simp only
    split
    · exact Attempt.keeps_pure.mpr ⟨hs, hfallback⟩
    · split
      · next more hmore =>
        exact ih hs hrest (Association.from_bindName hmore hreference hbound)
      · split
        · refine Attempt.keeps_bind.mpr (Attempt.keeps_asking.mpr
            ⟨spares_of_changed? rfl, fun reply after hreply => ?_⟩)
          obtain ⟨rfl, e, rfl⟩ | ⟨rfl, rfl⟩ := of_delete hreply
          · trivial
          · exact ih hs.remove hrest hbound
        · exact ih hs hrest hbound

theorem byName_associates (hs : s.Orderly) :
    (Association.byName composite templates).Keeps Serves (Spares composite)
      (fun associations after => ∃ references, composite.resourceRefs = .ok references ∧
        Associates templates references associations after) (fun _ => True) s := by
  unfold Association.byName
  cases hreferences : composite.resourceRefs with
  | error e =>
    split <;>
      · refine Attempt.keeps_bind.mpr (Attempt.keeps_ofExcept.mpr ?_)
        rw [hreferences]
        trivial
  | ok references =>
    split <;> refine Attempt.keeps_bind.mpr (Attempt.keeps_ofExcept.mpr ?_) <;> rw [hreferences]
    · exact Attempt.keeps_pure.mpr ⟨references, rfl, hs, Association.from_byOrder⟩
    · refine (collect_associates hs (fun _ => id) Association.from_byOrder fun a ha => ?_).mono
        (fun _ _ h => ⟨references, rfl, h⟩) fun _ => id
      obtain ⟨htemplate, hnone⟩ := Association.from_byOrder a ha
      exact ⟨htemplate, fun r hr => absurd (hnone r hr) (List.not_mem_nil)⟩

/-! ### Rendering -/

theorem renderOne_guards {a : Association} (ht : a.template.Modest references) (hs : s.Orderly)
    (hmem : ∀ reference, a.reference = some reference → reference ∈ references) :
    (Composition.renderOne .standard environment a).Keeps Serves (Spares composite)
      (fun rendition c after => c = composite ∧ s.Extends after ∧
        ∀ r, rendition = .rendered r → after.Guarded composite r)
      (fun _ => True) composite s := by
  refine Composing.keeps_bind.mpr (Composing.keeps_during.mpr
    ((observe_guards environment ht hs hmem).mono ?_ fun _ => id))
  rintro before _ ⟨rfl, hbefore⟩
  refine Composing.keeps_bind.mpr (Composing.keeps_renderComposed
    ((render_guards ht hbefore).mono ?_ fun after hafter e => ?_))
  · rintro r after ⟨hafter, hguarded⟩
    refine Composing.keeps_pure.mpr ⟨rfl, hafter, ?_⟩
    rintro _ ⟨⟩
    exact hguarded
  · simp only
    split
    · exact Composing.keeps_throw.mpr trivial
    · exact Composing.keeps_pure.mpr ⟨rfl, hafter, fun r hr => by cases hr⟩

theorem renderAll_guards {associations : List Association}
    (ht : ∀ t ∈ templates, t.Modest references) (hs : s.Orderly)
    (hfrom : ∀ a ∈ associations, a.From templates references) :
    (Composition.renderAll .standard environment associations).Keeps Serves (Spares composite)
      (fun renditions c after => c = composite ∧ s.Extends after ∧
        ∀ entry ∈ Composition.renderedOnly renditions,
          entry.1.Modest references ∧ after.Guarded composite entry.2)
      (fun _ => True) composite s := by
  induction associations generalizing s with
  | nil => exact Composing.keeps_pure.mpr ⟨rfl, .refl s, List.forall_mem_nil _⟩
  | cons a rest ih =>
    obtain ⟨⟨htemplate, hmem⟩, hrest⟩ := List.forall_mem_cons.mp hfrom
    refine Composing.keeps_bind.mpr
      ((renderOne_guards (ht _ htemplate) hs hmem).mono ?_ fun _ => id)
    rintro rendition _ middle ⟨rfl, hmiddle, hfirst⟩
    refine Composing.keeps_bind.mpr ((ih (hs.extends hmiddle) hrest).mono ?_ fun _ => id)
    rintro renditions _ after ⟨rfl, hafter, hall⟩
    refine Composing.keeps_pure.mpr ⟨rfl, hmiddle.trans hafter, ?_⟩
    cases rendition with
    | rendered r =>
      exact List.forall_mem_cons.mpr
        ⟨⟨ht _ htemplate, (hfirst r rfl).extends hafter⟩, hall⟩
    | skipped cause => exact hall

/-! ### Writing -/

/-- Where a pass stands when it writes: the store is in order, the composite lies where it was, and
nobody else controls what is going to be written. -/
structure Standing (composite : Resource) (rs : List Resource) (c : Resource) (s : Ledger) :
    Prop where
  /-- The store is in order. -/
  orderly : s.Orderly
  /-- The composite at hand lies where it was. -/
  lies : c.LiesAt composite.key
  /-- Nobody else controls the resources to be written. -/
  guarded : ∀ r ∈ rs, s.Guarded composite r

variable {rs : List Resource} {key : ObjectKey} {form : Json}

theorem spares_of_not_foreign {request : Call} (hrequest : changed? request = some r)
    (h : ¬ s.Foreign composite r.key) : Spares composite request s :=
  fun ⟨object, hobject, hforeign⟩ => by
    obtain rfl := Option.some.inj (hrequest.symm.trans hobject)
    exact absurd hforeign h

theorem Standing.spares_composite (h : Standing composite rs c s) {request : Call}
    (hrequest : changed? request = some c) : Spares composite request s :=
  spares_of_not_foreign hrequest fun hforeign => hforeign.apart h.lies.key

theorem Standing.put (h : Standing composite rs c s) (hlies : form.LiesAt key)
    (hform : key = composite.key ∨ ControlledBy composite.uid (Metadata.owners? form.metadata)) :
    Standing composite rs c (s.put key form) where
  orderly := h.orderly.put hlies
  lies := h.lies
  guarded r hr := ⟨(h.guarded r hr).1, fun hforeign => (h.guarded r hr).2 (hforeign.of_put hform)⟩

theorem applyComposite_guards (hname : composite.key.name ≠ "") (h : Standing composite rs c s) :
    Composition.applyComposite.Keeps Serves (Spares composite) (fun _ => Standing composite rs)
      (fun _ => True) c s := by
  have hkey : c.key = composite.key := h.lies.key
  refine Composing.keeps_bind.mpr (Composing.keeps_get.mpr (Composing.keeps_bind.mpr
    (Composing.keeps_during.mpr (apply_keeps (by simp [h.lies.named hname])
      (spares_of_changed? rfl) trivial (fun _ => ⟨spares_of_changed? rfl, ?_⟩)
      fun form hform => ⟨h.spares_composite rfl, trivial, fun stored hread => ?_⟩))))
  · rw [hkey]
    have hlies := liesAt_fresh h.lies
    exact Composing.keeps_setComposite.mpr
      { h.put (liesAt_encode hlies) (.inl rfl) with lies := hlies }
  · rw [hkey] at hform ⊢
    have hafter := h.put (liesAt_applied h.lies (h.orderly _ form hform)) (.inl rfl)
    have hlies := hafter.orderly.read (by rw [lookup?_put, if_pos rfl]) hread
    exact Composing.keeps_setComposite.mpr { hafter with lies := hlies }

theorem persistReferences_guards (hname : composite.key.name ≠ "")
    (h : Standing composite rs c s) (references : List Reference) :
    (Composition.persistReferences references).Keeps Serves (Spares composite)
      (fun _ => Standing composite rs) (fun _ => True) c s := by
  refine Composing.keeps_bind.mpr (Composing.keeps_get.mpr (Composing.keeps_bind.mpr
    (Composing.keeps_during.mpr (Attempt.keeps_ofExcept.mpr ?_))))
  cases hset : c.setResourceRefs references with
  | error e => trivial
  | ok referring =>
    obtain ⟨type, name, ns, hkey, hof⟩ := h.lies
    have hlies : referring.LiesAt composite.key :=
      ⟨type, name, ns, hkey, hof.setField parse_referencesPath (by simp [headerNames]) hset⟩
    exact Composing.keeps_bind.mpr (Composing.keeps_setComposite.mpr
      (applyComposite_guards hname { h with lies := hlies }))

theorem persistComposite_guards (hname : composite.key.name ≠ "") (h : Standing composite rs c s) :
    Composition.persistComposite.Keeps Serves (Spares composite)
      (fun _ c _ => c.LiesAt composite.key) (fun _ => True) c s := by
  refine Composing.keeps_bind.mpr (Composing.keeps_get.mpr (Composing.keeps_bind.mpr
    ((applyComposite_guards hname h).mono ?_ fun _ => id)))
  intro _ stored middle hmiddle
  cases c.body.get? "status" with
  | none => exact Composing.keeps_pure.mpr hmiddle.lies
  | some status =>
    refine Composing.keeps_bind.mpr (Composing.keeps_get.mpr ?_)
    split
    · exact Composing.keeps_pure.mpr hmiddle.lies
    · refine Composing.keeps_bind.mpr (Composing.keeps_during.mpr (Attempt.keeps_asking.mpr
        ⟨hmiddle.spares_composite rfl, fun reply after hreply => ?_⟩))
      obtain ⟨rfl, e, rfl⟩ | ⟨form, hform, rfl, rfl⟩ := of_patchStatus hreply
      · trivial
      · rw [hmiddle.lies.key] at hform
        have hlies := liesAt_statusOnly (.object [("status", status)])
          (hmiddle.orderly _ form hform)
        cases hread : ofJson (Memory.versioned (form.mergePatch
            (Memory.statusOnly (.object [("status", status)])))) with
        | error e => trivial
        | ok written =>
          obtain ⟨type, name, ns, hkey, hon⟩ := hlies
          exact ⟨type, name, ns, hkey, (hon.read hread).1⟩

/-- Rendering the composite from a modest template leaves it where it was. -/
theorem liesAt_rendered (ht : t.Modest references) (h : c.LiesAt key) {c' : Resource}
    (hpatched : Patch.applyToComposite t.patches r c = .ok c') : c'.LiesAt key := by
  obtain ⟨type, name, ns, hkey, hof⟩ := h
  have hsame := Patch.applyTo_identity (fun p hp hsource => ht.identity p hp (by
    rintro hset
    simp [Patch.compositeSource, hset] at hsource)) hof.proper hpatched
  exact ⟨type, name, ns, hkey, hof.same hsame⟩

theorem settleOne_guards (ht : t.Modest references) (h : Standing composite rs c s)
    (hr : s.Guarded composite r) :
    (Composition.settleOne .standard environment t r).Keeps Serves (Spares composite)
      (fun _ => Standing composite rs) (fun _ => True) c s := by
  obtain ⟨howned, hforeign⟩ := hr
  have hproper := howned.lies.proper
  refine settleOne_of_apply (fun _ _ _ _ => spares_of_changed? rfl) (fun _ _ _ => trivial) trivial
    fun c' hc' => apply_keeps (by simp [howned.named]) (spares_of_changed? rfl) trivial
      (fun _ => ⟨spares_of_changed? rfl, ?_⟩)
      fun form hform => ⟨spares_of_not_foreign rfl hforeign, trivial, fun stored _ => ?_⟩
  · exact { h.put (liesAt_encode (liesAt_fresh howned.lies))
      (.inr (owners?_fresh hproper howned.owned)) with lies := liesAt_rendered ht h.lies hc' }
  · exact { h.put (liesAt_applied howned.lies (h.orderly _ form hform))
      (.inr (owners?_applied hproper howned.owned)) with lies := liesAt_rendered ht h.lies hc' }

theorem settleAll_guards {entries : List (Template × Resource)} (h : Standing composite rs c s)
    (hentries : ∀ entry ∈ entries, entry.1.Modest references ∧ entry.2 ∈ rs) :
    (Composition.settleAll .standard environment entries).Keeps Serves (Spares composite)
      (fun _ => Standing composite rs) (fun _ => True) c s := by
  induction entries generalizing c s with
  | nil => exact Composing.keeps_pure.mpr h
  | cons entry rest ih =>
    obtain ⟨⟨ht, hr⟩, hrest⟩ := List.forall_mem_cons.mp hentries
    rw [Composition.settleAll]
    refine Composing.keeps_bind.mpr ((settleOne_guards ht h (h.guarded _ hr)).mono ?_ fun _ => id)
    intro settled c' middle hmiddle
    exact Composing.keeps_bind.mpr ((ih hmiddle hrest).mono
      (fun _ _ _ hafter => Composing.keeps_pure.mpr hafter) fun _ => id)

/-! ### The whole pass -/

/-- What a composition starts from when it is to take nothing over: an orderly store, a composite
with a name, and modest templates. -/
structure Peaceful (composite : Resource) (revision : Revision) (s : Ledger) : Prop where
  /-- The store is in order. -/
  orderly : s.Orderly
  /-- The composite has an identity. -/
  lies : composite.LiesAt composite.key
  /-- The composite has a name. -/
  named : composite.key.name ≠ ""
  /-- The templates leave identity and owners alone. -/
  modest : ∀ references templates, composite.resourceRefs = .ok references →
    revision.inlinedTemplates = .ok templates → ∀ t ∈ templates, t.Modest references

theorem compose_guards {request : CompositionRequest} (h : Peaceful composite request.revision s) :
    (Composition.compose .standard request).Keeps Serves (Spares composite)
      (fun _ c _ => c.LiesAt composite.key) (fun _ => True) composite s := by
  refine Composing.keeps_bind.mpr (Composing.keeps_during.mpr (Attempt.keeps_ofExcept.mpr ?_))
  cases hinlined : request.revision.inlinedTemplates with
  | error e => trivial
  | ok templates =>
    refine Composing.keeps_bind.mpr (Composing.keeps_get.mpr (Composing.keeps_bind.mpr
      (Composing.keeps_during.mpr ((byName_associates h.orderly).mono ?_ fun _ => id))))
    rintro associations associated ⟨references, hreferences, hassociated, hfrom⟩
    have hmodest := h.modest references templates hreferences hinlined
    refine Composing.keeps_bind.mpr ((renderAll_guards hmodest hassociated hfrom).mono ?_
      fun _ => id)
    rintro renditions composite rendered ⟨rfl, hrendered, hentries⟩
    have hstanding : Standing composite ((Composition.renderedOnly renditions).map (·.2)) composite
        rendered := by
      refine ⟨hassociated.extends hrendered, h.lies, fun r hr => ?_⟩
      obtain ⟨entry, hentry, rfl⟩ := List.mem_map.mp hr
      exact (hentries entry hentry).2
    refine Composing.keeps_bind.mpr ((persistReferences_guards h.named hstanding _).mono ?_
      fun _ => id)
    intro _ c persisted hpersisted
    refine Composing.keeps_bind.mpr ((settleAll_guards hpersisted fun entry hentry =>
      ⟨(hentries entry hentry).1, List.mem_map_of_mem hentry⟩).mono ?_ fun _ => id)
    intro settled c' applied happlied
    exact Composing.keeps_bind.mpr ((persistComposite_guards h.named happlied).mono
      (fun _ _ _ hlies => Composing.keeps_pure.mpr hlies) fun _ => id)

theorem publishAll_guards (about : Reference) (events : List Event) :
    (Composition.publishAll about events).Keeps Serves (Spares composite) (fun _ _ => True) s := by
  induction events generalizing s with
  | nil => trivial
  | cons event rest ih =>
    exact Program.keeps_bind.mpr ⟨spares_of_changed? rfl, fun _ _ _ => ih⟩

/-- Publishing connection details changes a secret, and nothing else. -/
theorem publishDetails_guards (c : Resource) (details : ConnectionDetails) :
    (c.publishDetails defaultNamespace details).Keeps Serves (Spares composite) (fun _ _ => True)
      (fun _ => True) s := by
  refine Attempt.keeps_bind.mpr (Attempt.keeps_ofExcept.mpr ?_)
  cases hsecret : c.secretReference? with
  | error e => trivial
  | ok named? =>
    cases named? with
    | none => trivial
    | some named =>
      refine Attempt.keeps_bind.mpr (Attempt.keeps_asking.mpr ⟨spares_of_changed? rfl, ?_⟩)
      rintro (e | existing?) after -
      · trivial
      · cases existing? with
        | none =>
          refine Attempt.keeps_bind.mpr (Attempt.keeps_asking.mpr ⟨spares_of_changed? rfl, ?_⟩)
          rintro (e | created) _ - <;> trivial
        | some existing =>
          simp only [Program.Keeps, Ends]
          split
          · trivial
          · refine Attempt.keeps_bind.mpr (Attempt.keeps_asking.mpr
              ⟨fun _ => ⟨_, rfl⟩, ?_⟩)
            rintro (e | updated) _ - <;> trivial

theorem publishing_guards (c : Resource) (outcome : Outcome) :
    (Composition.publishDetails defaultNamespace c outcome).Keeps Serves
      (Spares composite) (fun _ _ => True) (fun _ => True) s := by
  refine Program.keeps_bind.mpr (Program.Keeps.mono (publishDetails_guards c _) ?_)
  rintro (e | changed) published -
  · exact ⟨spares_of_changed? rfl, fun _ _ _ => trivial⟩
  · cases changed
    · trivial
    · exact ⟨spares_of_changed? rfl, fun _ _ _ => trivial⟩

theorem reportReadiness_guards {now : Instant} {outcome : Outcome} (h : c.LiesAt composite.key) :
    (Composition.reportReadiness now c outcome).Keeps Serves (Spares composite)
      (fun _ _ => True) (fun _ => True) s := by
  refine Attempt.keeps_bind.mpr (Attempt.keeps_ofExcept.mpr ?_)
  cases hset : c.setCondition now (Composition.readyCondition outcome) with
  | error e => trivial
  | ok result =>
    obtain ⟨changed, reported⟩ := result
    have hlies : reported.LiesAt composite.key := by
      obtain ⟨type, name, ns, hkey, hof⟩ := h
      exact ⟨type, name, ns, hkey, hof.setCondition hset⟩
    simp only [Except.mapError_ok, Ends]
    split
    · refine Attempt.keeps_bind.mpr (Attempt.keeps_asking.mpr
        ⟨spares_of_not_foreign rfl fun hforeign => hforeign.apart hlies.key, ?_⟩)
      rintro (e | patched) _ - <;> trivial
    · trivial

theorem reconcile_guards {request : CompositionRequest} (h : Peaceful composite request.revision s)
    (now : Instant) :
    (Composition.reconcile .standard defaultNamespace now request composite).Keeps Serves
      (Spares composite) (fun _ _ => True) (fun _ => True) s := by
  refine Program.keeps_bind.mpr (Program.Keeps.mono (compose_guards h) ?_)
  rintro ⟨e | outcome, c⟩ after hlies
  · exact ⟨spares_of_changed? rfl, fun _ _ _ => trivial⟩
  · refine Program.keeps_bind.mpr ((publishAll_guards _ _).mono fun _ after _ => ?_)
    exact Attempt.keeps_bind.mpr ((publishing_guards c outcome).mono
      (fun _ _ _ => Attempt.keeps_bind.mpr ((reportReadiness_guards hlies).mono
        (fun _ _ _ => trivial) fun _ => id)) fun _ => id)

/-- After some exchanges a pass is about to change an object that another controls. -/
def Seizes (defaultNamespace : Option String) (now : Instant) (request : CompositionRequest)
    (composite : Resource) (s : Ledger) (log : List Exchange) (call : Call) (last : Ledger) : Prop :=
  (Composition.reconcile .standard defaultNamespace now request composite).Calls Serves s log call
    last ∧ TakesOver composite call last

/-- In every store, for every composite and every revision: a pass takes something over exactly
where one of its routes leads to an object that another controls. If the templates leave identity
and owners alone, then one route is left: the pass replaces the secret that the composite names for
its connection details. -/
theorem takes_over_iff {request : CompositionRequest} {now : Instant} {call : Call}
    {log : List Exchange} {last : Ledger} :
    (Seizes defaultNamespace now request composite s log call last ↔
      ∃ object, Composition.Route Serves defaultNamespace now request composite s log call object
        last ∧ last.Foreign composite object.key) ∧
    (Peaceful composite request.revision s →
      (Seizes defaultNamespace now request composite s log call last ↔
        ∃ secret, call = .update secret ∧
          Composition.Publishes Serves defaultNamespace request composite s log secret last ∧
          last.Foreign composite secret.key)) := by
  have hroutes : Seizes defaultNamespace now request composite s log call last ↔
      ∃ object, Composition.Route Serves defaultNamespace now request composite s log call object
        last ∧ last.Foreign composite object.key := by
    simp only [Seizes, ← Composition.reconcile_changes_iff, TakesOver]
    exact ⟨fun ⟨hcalls, object, hchanges, hforeign⟩ => ⟨object, ⟨hcalls, hchanges⟩, hforeign⟩,
      fun ⟨object, ⟨hcalls, hchanges⟩, hforeign⟩ => ⟨hcalls, object, hchanges, hforeign⟩⟩
  refine ⟨hroutes, fun h => ⟨fun hseizes => ?_, ?_⟩⟩
  · -- What the guards let pass is an update, and only the publication makes one.
    obtain ⟨resume, hreaches⟩ := hseizes.1
    obtain ⟨secret, rfl⟩ := (Program.Keeps.reaches hreaches (reconcile_guards h now)).1 hseizes.2
    obtain ⟨object, hroute, hforeign⟩ := hroutes.mp hseizes
    cases hroute with
    | composing _ hoverwrites => cases hoverwrites
    | publishing hpublishes => exact ⟨secret, rfl, hpublishes, hforeign⟩
  · rintro ⟨secret, rfl, hpublishes, hforeign⟩
    exact hroutes.mpr ⟨secret, .publishing hpublishes, hforeign⟩

/-! ### Objects at risk -/

/-- A composite that wants something. -/
def seeker (wants : Dict Json) : Resource where
  typeMeta := some ⟨"v1", "Seeker"⟩
  metadata := {
    name := some "seeker", uid := some "u", labels := some [("tessera.dev/composite", "seeker")] }
  body := [("spec", .object wants)]

/-- An object that another composite controls. -/
def kept (kind name : String) : Resource where
  typeMeta := some ⟨"v1", kind⟩
  metadata := {
    name := some name
    ownerReferences := some [{
      apiVersion := "v1", kind := "Seeker", name := "keeper", uid := "w"
      controller := some true }] }

/-- A store of a composite and an object that another controls. -/
def contested (composite theirs : Resource) : Ledger :=
  (({ memory := {} } : Ledger).put theirs.key theirs.encode).put composite.key composite.encode

/-- The noon at which the seeker is reconciled. -/
def noon : Instant := ⟨2024, 1, 1, 12, 0, 0, 0⟩

/-- The pass at noon comes to take over a certain object of another. -/
def Seized (revision : Revision) (composite theirs : Resource) : Prop :=
  ∃ log call last, Seizes none noon { revision } composite (contested composite theirs) log call last ∧
    (changed? call).map (·.key) = some theirs.key

/-- A call changes another object than the composite. -/
def strays (composite : Resource) (call : Call) : Bool :=
  (changed? call).any (·.key ≠ composite.key)

/-- To see an object taken over, it is enough to run the pass until it changes something else than
the composite. -/
theorem seized_of_run {revision : Revision} {composite theirs : Resource}
    (h : (match (Composition.reconcile .standard none noon { revision } composite).run.upTo handler
        (strays composite) (contested composite theirs) with
      | (.call call _, last) => decide (TakesOver composite call last) &&
          decide ((changed? call).map (·.key) = some theirs.key)
      | _ => false) = true) : Seized revision composite theirs := by
  obtain ⟨log, hreaches⟩ := Program.reaches_upTo handler (strays composite)
    (Composition.reconcile .standard none noon { revision } composite).run
    (contested composite theirs)
  generalize (Composition.reconcile .standard none noon { revision } composite).run.upTo handler
    (strays composite) (contested composite theirs) = reached at h hreaches
  split at h
  · next call resume last =>
    obtain ⟨htakes, htheirs⟩ := Bool.and_eq_true_iff.mp h
    exact ⟨log, call, last, ⟨⟨resume, hreaches.mono fun _ _ _ _ => serves_handler⟩,
      of_decide_eq_true htakes⟩, of_decide_eq_true htheirs⟩
  · cases h

/-- A seeker that wants its connection details in a secret. -/
def wantsKeys : Resource :=
  seeker [("size", .int 3), ("writeConnectionSecretToRef", .object [("name", .string "keys")])]

/-- The secret that it names. -/
def keys : Resource :=
  { kept "Secret" "keys" with body := [("data", .object [("door", .string "b3Blbg==")])] }

theorem wantsKeys_liesAt : wantsKeys.LiesAt wantsKeys.key :=
  have hproper : wantsKeys.Proper := ⟨by decide, by decide, by decide, fun _ => by decide⟩
  ⟨⟨"v1", "Seeker"⟩, "seeker", none, rfl, Identity.of_full rfl rfl rfl hproper⟩

theorem sized_modest (name kind : String) : (sized name kind).Modest [] where
  makes := by
    refine ⟨⟨"v1", kind⟩, sized_makes name kind, fun reference hmem => ?_⟩
    cases hmem
  owners := nofun
  identity p hp _ := by
    have hspec := (sized_writes hp).2
    simp only [Patch.SparesIdentity, Json.identifying, List.forall_mem_cons]
    exact ⟨hspec.apart (by decide), hspec.apart (by decide), hspec.apart (by decide),
      hspec.apart (by decide), List.forall_mem_nil _⟩
  spared p hp _ := (sized_writes hp).2.apart (by decide)

theorem keys_peaceful : Peaceful wantsKeys pair (contested wantsKeys keys) where
  orderly := by
    have hempty : Orderly { memory := {} } := fun _ _ h => by cases h
    have hproper : keys.Proper := ⟨by decide, by decide, by decide, fun _ => by decide⟩
    have hkeys : keys.LiesAt keys.key :=
      ⟨⟨"v1", "Secret"⟩, "keys", none, rfl, Identity.of_full rfl rfl rfl hproper⟩
    exact (hempty.put (liesAt_encode hkeys)).put (liesAt_encode wantsKeys_liesAt)
  lies := wantsKeys_liesAt
  named := by decide
  modest references templates hreferences htemplates := by
    obtain rfl : _ = templates := Except.ok.inj htemplates
    have hnone : wantsKeys.resourceRefs = .ok [] := resourceRefs_eq_ok.mpr (by decide +kernel)
    obtain rfl : [] = references := Except.ok.inj (hnone.symm.trans hreferences)
    simp only [List.forall_mem_cons]
    exact ⟨sized_modest .., sized_modest .., nofun⟩

theorem keys_seized : Seized pair wantsKeys keys := seized_of_run (by decide +kernel)

/-- A patch gives a box the name of another's. -/
def namesBox : Revision where
  templates := [{
    base := .object [("apiVersion", .string "v1"), ("kind", .string "Box")]
    patches := [{ fromFieldPath := some "spec.target", toFieldPath := some "metadata.name" }] }]

theorem renamed_seized :
    Seized namesBox (seeker [("target", .string "theirs")]) (kept "Box" "theirs") :=
  seized_of_run (by decide +kernel)

/-- A route of the pass leads to the box of another, by the name that the patch gave; the keys are
taken by the publication of the connection details. -/
theorem box_and_keys_are_taken :
    (∃ log call object last, object.key = (kept "Box" "theirs").key ∧
      Composition.Route Serves none noon { revision := namesBox }
        (seeker [("target", .string "theirs")])
        (contested (seeker [("target", .string "theirs")]) (kept "Box" "theirs")) log call object
        last ∧
      last.Foreign (seeker [("target", .string "theirs")]) object.key) ∧
    Peaceful wantsKeys pair (contested wantsKeys keys) ∧ ∃ log secret last, secret.key = keys.key ∧
      Composition.Publishes Serves none { revision := pair } wantsKeys (contested wantsKeys keys) log
        secret last ∧
      last.Foreign wantsKeys secret.key := by
  constructor
  · obtain ⟨log, call, last, hseizes, hkey⟩ := renamed_seized
    obtain ⟨object, hroute, hforeign⟩ := takes_over_iff.1.mp hseizes
    have hobject := (Composition.reconcile_changes_iff.mpr hroute).2
    rw [hobject] at hkey
    exact ⟨log, call, object, last, Option.some.inj hkey, hroute, hforeign⟩
  · obtain ⟨log, call, last, hseizes, hkey⟩ := keys_seized
    obtain ⟨secret, rfl, hpublishes, hforeign⟩ := (takes_over_iff.2 keys_peaceful).mp hseizes
    exact ⟨keys_peaceful, log, secret, last, Option.some.inj hkey, hpublishes, hforeign⟩

/-- A base takes the owners from a box. -/
def disownsBox : Revision where
  templates := [{
    base := .object [("apiVersion", .string "v1"), ("kind", .string "Box"),
      ("metadata", .object [("ownerReferences", .array [])])] }]

/-- A seeker that refers to a box of another. -/
def refersToBox : Resource :=
  seeker [("resourceRefs", .array [.object [("apiVersion", .string "v1"), ("kind", .string "Box"),
    ("name", .string "theirs")]])]

theorem disowned_seized : Seized disownsBox refersToBox (kept "Box" "theirs") :=
  seized_of_run (by decide +kernel)

/-- A patch gives the composite the name of another. -/
def divertsSeeker : Revision where
  templates := [{
    base := .object [("apiVersion", .string "v1"), ("kind", .string "Box"),
      ("spec", .object [("target", .string "theirs")])]
    patches := [{
      type := .toComposite, fromFieldPath := some "spec.target"
      toFieldPath := some "metadata.name" }] }]

theorem diverted_seized : Seized divertsSeeker (seeker []) (kept "Seeker" "theirs") :=
  seized_of_run (by decide +kernel)

/-- A composite with a uid takes over what another controls: the secret with its connection details,
a box by the name that a patch gave it, a box whose owners the base removed, and another composite
by the name that a patch gave to the composite. -/
theorem others_taken_over :
    (wantsKeys.uid ≠ "" ∧ Seized pair wantsKeys keys) ∧
    ((seeker [("target", .string "theirs")]).uid ≠ "" ∧
      Seized namesBox (seeker [("target", .string "theirs")]) (kept "Box" "theirs")) ∧
    (refersToBox.uid ≠ "" ∧ Seized disownsBox refersToBox (kept "Box" "theirs")) ∧
    ((seeker []).uid ≠ "" ∧ Seized divertsSeeker (seeker []) (kept "Seeker" "theirs")) :=
  ⟨⟨by decide, keys_seized⟩, ⟨by decide, renamed_seized⟩, ⟨by decide, disowned_seized⟩,
    ⟨by decide, diverted_seized⟩⟩

end Ledger

end ResourceComposition
