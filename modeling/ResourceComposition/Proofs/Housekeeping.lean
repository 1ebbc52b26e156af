import ResourceComposition.Composition.Reconciliation
import ResourceComposition.Proofs.Course
import ResourceComposition.Proofs.Uprightness

/-!
# A pass keeps the store well

All that a pass of reconciliation asks of a store in memory suits the store, whatever the store
refuses on the way: what is written is upright, and it is patched with its own form. So a store in
which all forms lie where they belong is left so, and a run against a store in memory is one against
a store that is kept well (`Composition.reconcile_filing`).

The templates have to leave types alone (`Template.KeepsTypes`). Otherwise they may write what they
like.
-/

namespace ResourceComposition

/-! ### Programs that keep a store well -/

open Memory Resource

theorem Memory.suits_of_clears {request : Call} (h : request.Clears) : Suits request := by
  cases request with
  | get reference => trivial
  | delete object => trivial
  | _ => exact h.elim

/-- A result is wanted, if there is one. -/
def IfOk {ε α : Type} (wanted : α → Prop) : Except ε α → Prop
  | .ok a => wanted a
  | .error _ => True

section

variable {ε ε' α : Type} {wanted : α → Prop} {result : Except ε α}

theorem ifOk_iff : IfOk wanted result ↔ ∀ a, result = .ok a → wanted a := by
  cases result <;> simp [IfOk]

theorem ifOk_true : IfOk (fun _ => True) result := ifOk_iff.mpr fun _ _ => trivial

theorem ifOk_mapError {f : ε → ε'} : IfOk wanted (result.mapError f) ↔ IfOk wanted result := by
  cases result <;> rfl

end

namespace Program

variable {α β : Type} {first : β → Prop} {wanted : α → Prop}

/-- In a store that is kept well, whatever it refuses, all calls of a program suit the store, and the
result is wanted. -/
def KeepsWell (wanted : α → Prop) (p : Program α) : Prop :=
  ∀ m : Memory, m.Filed → p.Keeps Obeys (fun request _ => Suits request)
    (fun a after => after.Filed ∧ wanted a) m

theorem keepsWell_done {a : α} (h : wanted a) : (Program.done a).KeepsWell wanted :=
  fun _ hm => ⟨hm, h⟩

theorem keepsWell_ask {request : Call} {wanted : request.Reply → Prop} (hrequest : Suits request)
    (h : ∀ m after reply, m.Filed → Obeys request m reply after → wanted reply) :
    (Program.ask request).KeepsWell wanted :=
  fun m hm => ⟨hrequest, fun reply after hreply =>
    ⟨hreply.filed hm hrequest, h m after reply hm hreply⟩⟩

theorem KeepsWell.bind {p : Program β} {f : β → Program α} (hp : p.KeepsWell first)
    (hf : ∀ b, first b → (f b).KeepsWell wanted) : (p.bind f).KeepsWell wanted :=
  fun m hm => keeps_bind.mpr ((hp m hm).mono fun b after hb => hf b hb.2 after hb.1)

/-- It is enough that all calls that a program can make suit the store, and that what it comes to in it
is wanted. -/
theorem KeepsWell.of_always {p : Program α} (hp : p.Always fun request => Suits request)
    (hwanted : ∀ m log a last, Reaches Obeys p m log (.done a) last → wanted a) :
    p.KeepsWell wanted := by
  intro m hm
  replace hwanted := hwanted m
  induction p generalizing m with
  | done a => exact ⟨hm, hwanted [] a m .here⟩
  | call request resume ih =>
    refine ⟨hp.1, fun reply after hreply =>
      ih reply (hp.2 reply) after (hreply.filed hm hp.1) fun log a last h => ?_⟩
    exact hwanted _ a last (.call hreply h)

/-- However far a program gets in a store that is kept well, it gets there in one that stays so. -/
theorem KeepsWell.reaches_filing {p q : Program α} {m last : Memory} {log : List Exchange}
    (hp : p.KeepsWell wanted) (hm : m.Filed) (h : Reaches Obeys p m log q last) :
    Reaches Filing p m log q last := by
  refine Memory.reaches_filing h fun exchange hmem => ?_
  obtain ⟨-, hsuits⟩ := (hp m hm).allowed_of_mem h hmem
  exact hsuits

end Program

namespace Attempt

variable {α β : Type} {first : β → Prop} {wanted : α → Prop}

/-- An attempt keeps a store well, and its result is wanted, if it has one. -/
def KeepsWell (wanted : α → Prop) (p : Attempt α) : Prop := p.run.KeepsWell (IfOk wanted)

theorem keepsWell_pure {a : α} (h : wanted a) : (pure a : Attempt α).KeepsWell wanted :=
  Program.keepsWell_done h

theorem keepsWell_throw (e : CompositionError) : (throw e : Attempt α).KeepsWell wanted :=
  Program.keepsWell_done trivial

theorem keepsWell_ofExcept {result : Except CompositionError α} (h : IfOk wanted result) :
    (ofExcept result).KeepsWell wanted := Program.keepsWell_done h

theorem KeepsWell.bind {p : Attempt β} {f : β → Attempt α} (hp : p.KeepsWell first)
    (hf : ∀ b, first b → (f b).KeepsWell wanted) : (p >>= f).KeepsWell wanted := by
  refine Program.KeepsWell.bind hp ?_
  rintro (e | b) hb
  · exact Program.keepsWell_done trivial
  · exact hf b hb

theorem keepsWell_asking {p : Program (Except Error α)} {failure : Error → CompositionError}
    (hp : p.KeepsWell (IfOk wanted)) : (asking p failure).KeepsWell wanted := by
  refine Program.KeepsWell.bind hp ?_
  rintro (e | a) ha
  · exact Program.keepsWell_done trivial
  · exact Program.keepsWell_done ha

end Attempt

namespace Composing

variable {α β : Type} {first : β → Resource → Prop} {wanted : α → Resource → Prop}
  {composite : Resource}

/-- A step keeps a store well, and its result is wanted together with the composite as it is then, if it
has one. -/
def KeepsWell (wanted : α → Resource → Prop) (p : Composing α) (composite : Resource) : Prop :=
  (p.run composite).KeepsWell fun ending => IfOk (wanted · ending.2) ending.1

theorem keepsWell_pure {a : α} (h : wanted a composite) :
    (pure a : Composing α).KeepsWell wanted composite := Program.keepsWell_done h

theorem keepsWell_throw (e : CompositionError) :
    (throw e : Composing α).KeepsWell wanted composite := Program.keepsWell_done trivial

theorem keepsWell_setComposite {wanted : Unit → Resource → Prop} {c : Resource} (h : wanted () c) :
    (setComposite c).KeepsWell wanted composite := Program.keepsWell_done h

theorem KeepsWell.bind {p : Composing β} {f : β → Composing α} (hp : p.KeepsWell first composite)
    (hf : ∀ b c, first b c → (f b).KeepsWell wanted c) : (p >>= f).KeepsWell wanted composite := by
  refine Program.KeepsWell.bind hp ?_
  rintro ⟨e | b, c⟩ hb
  · exact Program.keepsWell_done trivial
  · exact hf b c hb

/-- A step may look at the composite. -/
theorem keepsWell_get_bind {f : Resource → Composing α} (h : (f composite).KeepsWell wanted composite) :
    (get >>= f).KeepsWell wanted composite := h

/-- A step that leaves the composite alone comes first. -/
theorem keepsWell_during_bind {stage : Stage} {p : Attempt β} {f : β → Composing α}
    {first : β → Prop} (hp : p.KeepsWell first)
    (hf : ∀ b, first b → (f b).KeepsWell wanted composite) :
    (during stage p >>= f).KeepsWell wanted composite := by
  have hduring : (during stage p).KeepsWell (fun b c => first b ∧ c = composite) composite := by
    refine Program.KeepsWell.bind hp ?_
    rintro (e | b) hb
    · exact Program.keepsWell_done trivial
    · exact Program.keepsWell_done ⟨hb, rfl⟩
  refine hduring.bind ?_
  rintro b _ ⟨hb, rfl⟩
  exact hf b hb

/-- The composed resource is rendered first. -/
theorem keepsWell_renderComposed_bind {t : Template} {environment : Json} {before : Resource}
    {f : Except CompositionError Resource → Composing α} {first : Resource → Prop}
    (hrender : (t.render environment composite before).KeepsWell first)
    (hok : ∀ composed, first composed → (f (.ok composed)).KeepsWell wanted composite)
    (herror : ∀ e, (f (.error e)).KeepsWell wanted composite) :
    (rendering (Renderer.composed t environment) before >>= f).KeepsWell wanted composite := by
  have hrendering : (rendering (Renderer.composed t environment) before).KeepsWell
      (fun result c => IfOk first result ∧ c = composite) composite := by
    rw [KeepsWell, run_renderComposed]
    exact Program.KeepsWell.bind hrender fun result hresult => Program.keepsWell_done ⟨hresult, rfl⟩
  refine hrendering.bind ?_
  rintro (e | composed) _ ⟨hcomposed, rfl⟩
  · exact herror e
  · exact hok composed hcomposed

/-- The composite is rendered first. -/
theorem keepsWell_renderComposite_bind {t : Template} (environment : Json) {composed : Resource}
    {f : Except CompositionError Resource → Composing α}
    (hok : ∀ c, Patch.applyToComposite t.patches composed composite = .ok c →
      (f (.ok composed)).KeepsWell wanted c)
    (herror : ∀ e, (f (.error e)).KeepsWell wanted composite) :
    (rendering (Renderer.composite t environment) composed >>= f).KeepsWell wanted composite := by
  have hrendering : (rendering (Renderer.composite t environment) composed).KeepsWell
      (fun result c => (f result).KeepsWell wanted c) composite := by
    unfold KeepsWell rendering
    simp only [Renderer.composite, ExceptT.run]
    cases h : Patch.applyToComposite t.patches composed composite with
    | error e => exact Program.keepsWell_done (herror e)
    | ok c => exact Program.keepsWell_done (hok c h)
  exact hrendering.bind fun _ _ h => h

end Composing

/-! ### Single calls -/

namespace Memory

variable {m after : Memory} {key : ObjectKey} {r created stored : Resource} {form patch : Json}

/-- What is read where it lies, under a key with a group and version, is definite. -/
theorem definite_of_filed (hform : FiledAt key form) (hkey : key.apiVersion ≠ "")
    (hread : ofJson form = .ok r) : r.Definite := by
  obtain ⟨hordered, r', hread', rfl⟩ := filedAt_iff.mp hform
  obtain rfl := Except.ok.inj (hread'.symm.trans hread)
  refine ⟨upright_of_ofJson hordered hread, ?_⟩
  simpa [Resource.key, Reference.key, Resource.reference, Identity.getD_nonEmpty] using hkey

theorem key_apiVersion_ne (h : r.Definite) : r.key.apiVersion ≠ "" := by
  simpa [Resource.key, Reference.key, Resource.reference, Identity.getD_nonEmpty] using h.typed

/-- What is found in a well kept store is upright. -/
theorem upright_of_get {reference : Reference} (hm : m.Filed)
    (h : Obeys (.get reference) m (.ok (some r)) after) : r.Upright := by
  obtain ⟨form, hform, hread⟩ := (of_get h).2 r rfl
  exact upright_of_ofJson (hm.lookup? hform).1 hread

/-- Only some of the metadata tell of a definite resource that it is one. -/
theorem definite_of_metadata (h : r.Definite)
    (hmetadata : created.metadata = { r.metadata with
      name := created.metadata.name, uid := created.metadata.uid
      resourceVersion := created.metadata.resourceVersion
      ownerReferences := created.metadata.ownerReferences })
    (htype : created.typeMeta = r.typeMeta) (hbody : created.body = r.body) : created.Definite :=
  h.congr (upright_of_metadata h.upright hmetadata htype hbody) htype

/-- What is created of something definite is definite. -/
theorem definite_of_create {dryRun : Bool} (hr : r.Definite)
    (h : Obeys (.create r dryRun) m (.ok created) after) : created.Definite := by
  generalize hreply : (Except.ok created : Except Error Resource) = reply at h
  cases h with
  | refused cause => cases hreply
  | told name =>
    obtain rfl := Except.ok.inj hreply
    exact definite_of_metadata hr rfl rfl rfl
  | served =>
    simp only [handler, create] at hreply
    cases hnamed : m.named r with
    | mk result named =>
      cases result with
      | error e => simp [hnamed] at hreply
      | ok object =>
        obtain ⟨name, rfl⟩ := eq_of_named (congrArg Prod.fst hnamed)
        simp only [hnamed] at hreply
        split at hreply
        · obtain rfl := Except.ok.inj hreply
          exact definite_of_metadata hr rfl rfl rfl
        · split at hreply
          · cases hreply
          · obtain rfl := Except.ok.inj hreply
            exact definite_of_metadata hr rfl rfl rfl

theorem definite_of_patch (hm : m.Filed) (hr : r.Definite)
    (h : Obeys (.patch r r.encode) m (.ok stored) after) : stored.Definite := by
  obtain ⟨form, hform, hread, -⟩ := of_patch h
  exact definite_of_filed (filedAt_patched hr.upright hr.kind (filedAt_iff.mpr (hm.lookup? hform)))
    (key_apiVersion_ne hr) hread

theorem definite_of_patchStatus (hm : m.Filed) (hr : r.Definite) (hpatch : patch.Ordered)
    (h : Obeys (.patchStatus r patch) m (.ok stored) after) : stored.Definite := by
  obtain ⟨form, hform, hread, -⟩ := of_patchStatus h
  exact definite_of_filed (filedAt_statusOnly hpatch (filedAt_iff.mpr (hm.lookup? hform)))
    (key_apiVersion_ne hr) hread

end Memory

namespace Attempt

variable {r : Resource} {patch : Json}

theorem keepsWell_get (reference : Reference) :
    (get reference).KeepsWell (IfOk fun object? => ∀ r ∈ object?, r.Upright) := by
  refine Program.keepsWell_ask trivial fun m after reply hm h => ifOk_iff.mpr ?_
  rintro object? rfl r rfl
  exact upright_of_get hm h

theorem keepsWell_find (reference : Reference) (failure : Error → CompositionError) :
    (find reference failure).KeepsWell fun object? => ∀ r ∈ object?, r.Upright := by
  refine keepsWell_asking ((keepsWell_get reference).bind ?_)
  rintro (e | object?) h
  · refine Program.keepsWell_done ?_
    cases e.isNotFound <;> simp [IfOk]
  · exact Program.keepsWell_done h

theorem keepsWell_create (hr : r.Definite) (dryRun : Bool) :
    (create r dryRun).KeepsWell (IfOk Definite) := by
  refine Program.keepsWell_ask hr.upright fun m after reply _ h => ifOk_iff.mpr ?_
  rintro created rfl
  exact definite_of_create hr h

theorem keepsWell_patch (hr : r.Definite) : (Attempt.patch r r.encode).KeepsWell (IfOk Definite) := by
  refine Program.keepsWell_ask ⟨hr.upright, hr.kind, rfl⟩ fun m after reply hm h => ifOk_iff.mpr ?_
  rintro stored rfl
  exact definite_of_patch hm hr h

theorem keepsWell_patchStatus (hr : r.Definite) (hpatch : patch.Ordered) :
    (patchStatus r patch).KeepsWell (IfOk Definite) := by
  refine Program.keepsWell_ask hpatch fun m after reply hm h => ifOk_iff.mpr ?_
  rintro stored rfl
  exact definite_of_patchStatus hm hr hpatch h

theorem keepsWell_update (hr : r.Upright) :
    (update r).KeepsWell (IfOk fun _ => True) :=
  Program.keepsWell_ask hr fun _ _ _ _ _ => ifOk_true

theorem keepsWell_publish (about : Reference) (event : Event) :
    (publish about event).KeepsWell fun _ => True :=
  Program.keepsWell_ask trivial fun _ _ _ _ _ => trivial

end Attempt

/-! ### Applying and rendering -/

section

open Attempt

theorem Resource.apply_keepsWell {r : Resource} (hr : r.Definite) : r.apply.KeepsWell Definite := by
  have hcreate : r.createStored.KeepsWell Definite := keepsWell_asking (keepsWell_create hr false)
  unfold Resource.apply
  split
  · exact hcreate
  · refine (keepsWell_asking (keepsWell_get r.reference)).bind ?_
    rintro (_ | _) -
    · exact hcreate
    · exact keepsWell_asking (keepsWell_patch hr)

theorem Resource.fetchDetails_keepsWell (composed : Resource) :
    composed.fetchDetails.KeepsWell fun _ => True := by
  refine (keepsWell_ofExcept ifOk_true).bind ?_
  rintro (_ | secret) -
  · exact keepsWell_pure trivial
  · refine (keepsWell_find _ _).bind ?_
    rintro (_ | stored) -
    · exact keepsWell_pure trivial
    · exact keepsWell_ofExcept ifOk_true

namespace Template

variable {t : Template} {environment : Json} {composite before r : Resource}

theorem allocateName_keepsWell (hr : r.Definite) : (allocateName r).KeepsWell Definite := by
  unfold allocateName
  split
  · refine (keepsWell_asking (keepsWell_create hr true)).bind fun wouldBe _ => ?_
    split
    · exact keepsWell_pure (definite_of_metadata hr rfl rfl rfl)
    · exact keepsWell_throw _
  · exact keepsWell_pure hr

theorem render_keepsWell (ht : t.KeepsTypes) (hcomposite : composite.Upright)
    (henvironment : environment.Ordered) (hbefore : before.Upright) :
    (t.render environment composite before).KeepsWell Definite := by
  have hprepare : IfOk Definite (t.prepare environment composite before) :=
    ifOk_iff.mpr fun _ => prepare_definite ht hcomposite henvironment hbefore
  exact (keepsWell_ofExcept hprepare).bind fun _ => allocateName_keepsWell

end Template

/-! ### Association -/

namespace Association

theorem byName_keepsWell (composite : Resource) (templates : List Template) :
    (byName composite templates).KeepsWell
      fun associations => associations.map (·.template) = templates := by
  have hsuits : (byName composite templates).run.Always fun request => Suits request :=
    Program.Always.mono (byName_always composite templates) fun _ => suits_of_clears
  refine Program.KeepsWell.of_always hsuits fun m log result last h => ifOk_iff.mpr ?_
  rintro associations rfl
  exact byName_templates h

end Association

end

/-! ### A composition -/

namespace Composition

open Composing

variable {composite : Resource} {environment : Json}

theorem observe_keepsWell (reference : Option Reference) : (observe reference).KeepsWell Upright := by
  cases reference with
  | none => exact Attempt.keepsWell_pure (upright_ofReference {})
  | some reference =>
    refine (Attempt.keepsWell_find _ _).bind ?_
    rintro (_ | composed) hcomposed
    · exact Attempt.keepsWell_pure (upright_ofReference reference)
    · exact Attempt.keepsWell_pure (hcomposed composed rfl)

/-- What was rendered, if anything was, is definite. -/
def Rendition.Definite : Rendition → Prop
  | .rendered composed => composed.Definite
  | .skipped _ => True

theorem renderOne_keepsWell {a : Association} (ha : a.template.KeepsTypes)
    (hcomposite : composite.Definite) (henvironment : environment.Ordered) :
    (renderOne .standard environment a).KeepsWell
      (fun rendition c => rendition.Definite ∧ c.Definite) composite := by
  refine keepsWell_during_bind (observe_keepsWell a.reference) fun before hbefore => ?_
  refine keepsWell_renderComposed_bind
    (Template.render_keepsWell ha hcomposite.upright henvironment hbefore) ?_ ?_
  · exact fun composed hcomposed => keepsWell_pure ⟨hcomposed, hcomposite⟩
  · intro e
    dsimp only
    split
    · exact keepsWell_throw _
    · exact keepsWell_pure ⟨trivial, hcomposite⟩

/-- Something definite was rendered, from a template that leaves types alone. -/
def Rendered (made : Template × Resource) : Prop := made.1.KeepsTypes ∧ made.2.Definite

theorem renderAll_keepsWell {associations : List Association}
    (h : ∀ a ∈ associations, a.template.KeepsTypes) (hcomposite : composite.Definite)
    (henvironment : environment.Ordered) :
    (renderAll .standard environment associations).KeepsWell
      (fun renditions c => (∀ made ∈ renderedOnly renditions, Rendered made) ∧ c.Definite)
      composite := by
  induction associations generalizing composite with
  | nil => exact keepsWell_pure ⟨by simp [renderedOnly], hcomposite⟩
  | cons a rest ih =>
    obtain ⟨ha, hrest⟩ := List.forall_mem_cons.mp h
    refine (renderOne_keepsWell ha hcomposite henvironment).bind ?_
    rintro rendition c ⟨hrendition, hc⟩
    refine (ih hrest hc).bind ?_
    rintro renditions c' ⟨hrenditions, hc'⟩
    refine keepsWell_pure ⟨?_, hc'⟩
    cases rendition with
    | rendered composed => exact List.forall_mem_cons.mpr ⟨⟨ha, hrendition⟩, hrenditions⟩
    | skipped cause => exact hrenditions

theorem applyComposite_keepsWell (hcomposite : composite.Definite) :
    applyComposite.KeepsWell (fun _ c => c.Definite) composite :=
  keepsWell_get_bind (keepsWell_during_bind (apply_keepsWell hcomposite) fun _ hc =>
    keepsWell_setComposite hc)

theorem persistReferences_keepsWell (references : List Reference) (hcomposite : composite.Definite) :
    (persistReferences references).KeepsWell (fun _ c => c.Definite) composite := by
  have hset : IfOk Resource.Definite (composite.setResourceRefs references) := by
    refine ifOk_iff.mpr fun referring hreferring => ?_
    obtain ⟨hupright, htype⟩ := hcomposite.upright.setField parse_referencesPath
      (by simp [headerNames]) (Json.ordered_array_map Reference.ordered_encode references) hreferring
    exact hcomposite.congr hupright htype
  refine keepsWell_get_bind (keepsWell_during_bind
    (Attempt.keepsWell_ofExcept (ifOk_mapError.mpr hset)) fun referring hreferring => ?_)
  exact (keepsWell_setComposite hreferring).bind fun _ _ hc => applyComposite_keepsWell hc

theorem persistComposite_keepsWell (hcomposite : composite.Definite) :
    persistComposite.KeepsWell (fun _ c => c.Definite) composite := by
  refine keepsWell_get_bind ((applyComposite_keepsWell hcomposite).bind fun _ stored hstored => ?_)
  cases hstatus : composite.body.get? "status" with
  | none => exact keepsWell_pure hstored
  | some status =>
    refine keepsWell_get_bind ?_
    split
    · exact keepsWell_pure hstored
    · have hpatch : (Json.object [("status", status)]).Ordered :=
        Json.ordered_field (hcomposite.upright.body.get? hstatus)
      have hwrite := Attempt.keepsWell_patchStatus hstored hpatch
      exact keepsWell_during_bind (Attempt.keepsWell_asking hwrite) fun _ hc =>
        keepsWell_setComposite hc

theorem settleOne_keepsWell {made : Template × Resource} (hmade : Rendered made)
    (hcomposite : composite.Definite) :
    (settleOne .standard environment made.1 made.2).KeepsWell (fun _ c => c.Definite) composite := by
  obtain ⟨ht, hmade⟩ := hmade
  refine keepsWell_renderComposite_bind environment (fun c hpatched => ?_) fun e => keepsWell_throw _
  have hc := Patch.applyToComposite_definite ht.patches hmade.upright hcomposite hpatched
  refine keepsWell_during_bind (apply_keepsWell hmade) fun object _ => ?_
  refine keepsWell_during_bind object.fetchDetails_keepsWell fun fetched _ => ?_
  refine keepsWell_during_bind (Attempt.keepsWell_ofExcept ifOk_true) fun details _ => ?_
  exact keepsWell_during_bind (Attempt.keepsWell_ofExcept ifOk_true) fun ready _ => keepsWell_pure hc

theorem settleAll_keepsWell {made : List (Template × Resource)} (hmade : ∀ m ∈ made, Rendered m)
    (hcomposite : composite.Definite) :
    (settleAll .standard environment made).KeepsWell (fun _ c => c.Definite) composite := by
  induction made generalizing composite with
  | nil => exact keepsWell_pure hcomposite
  | cons first rest ih =>
    obtain ⟨hfirst, hrest⟩ := List.forall_mem_cons.mp hmade
    exact (settleOne_keepsWell hfirst hcomposite).bind fun _ _ hc =>
      (ih hrest hc).bind fun _ _ hc' => keepsWell_pure hc'

/-- A request whose environment is in order and whose templates leave types alone. -/
structure LeavesTypes (request : CompositionRequest) : Prop where
  /-- The environment is in order. -/
  environment : request.environment.Ordered
  /-- All templates, with the patches of the sets in them, leave types alone. -/
  templates : ∀ templates, request.revision.inlinedTemplates = .ok templates →
    ∀ t ∈ templates, t.KeepsTypes

example : LeavesTypes { revision := { templates := [{
    name := some "door"
    base := .object [("apiVersion", .string "v1"), ("kind", .string "Door")] }] } } where
  environment := by decide
  templates := by
    rintro templates ⟨⟩
    simp only [List.mem_singleton, forall_eq]
    exact ⟨⟨⟨"v1", "Door"⟩, ⟨by decide, rfl, rfl⟩, by decide⟩, by simp⟩

theorem sorted_collected {details : ConnectionDetails} (h : details.Sorted)
    (settled : List (ComposedResource × ConnectionDetails)) :
    (settled.foldl (fun details entry => details.insertAll entry.2) details).Sorted := by
  induction settled generalizing details with
  | nil => exact h
  | cons entry rest ih => exact ih h.insertAll

/-- A composition keeps a store well. -/
theorem compose_keepsWell {request : CompositionRequest} (hrequest : LeavesTypes request)
    (hcomposite : composite.Definite) :
    (compose .standard request).KeepsWell
      (fun outcome c => outcome.connectionDetails.Sorted ∧ c.Definite) composite := by
  obtain ⟨henvironment, htemplates⟩ := hrequest
  have hinlined : IfOk (fun templates : List Template => ∀ t ∈ templates, t.KeepsTypes)
      request.revision.inlinedTemplates := ifOk_iff.mpr htemplates
  refine keepsWell_during_bind (Attempt.keepsWell_ofExcept hinlined) fun templates ht => ?_
  refine keepsWell_get_bind (keepsWell_during_bind
    (Association.byName_keepsWell composite templates) fun associations hassociations => ?_)
  have hkeeps : ∀ a ∈ associations, a.template.KeepsTypes := fun a ha =>
    ht _ (hassociations ▸ List.mem_map_of_mem ha)
  refine (renderAll_keepsWell hkeeps hcomposite henvironment).bind ?_
  rintro renditions c₁ ⟨hmade, hc₁⟩
  refine (persistReferences_keepsWell _ hc₁).bind fun _ c₂ hc₂ => ?_
  refine (settleAll_keepsWell hmade hc₂).bind fun settled c₃ hc₃ => ?_
  refine (persistComposite_keepsWell hc₃).bind fun _ c₄ hc₄ => keepsWell_pure ⟨?_, hc₄⟩
  exact sorted_collected Dict.sorted_nil settled

end Composition

/-! ### A pass -/

section

open Attempt

theorem Resource.publishDetails_keepsWell {details : ConnectionDetails} (hdetails : details.Sorted)
    (defaultNamespace : Option String) (composite : Resource) :
    (composite.publishDetails defaultNamespace details).KeepsWell fun _ => True := by
  refine (keepsWell_ofExcept ifOk_true).bind ?_
  rintro (_ | secret) -
  · exact keepsWell_pure trivial
  · have hdesired := Secret.definite_holding hdetails composite
      (Secret.reference secret (composite.metadata.ns <|> defaultNamespace))
    refine (keepsWell_asking (keepsWell_get _)).bind ?_
    rintro (_ | existing) -
    · exact (keepsWell_asking (keepsWell_create hdesired false)).bind fun _ _ =>
        keepsWell_pure trivial
    · dsimp only
      split
      · exact keepsWell_pure trivial
      · refine (keepsWell_asking (keepsWell_update ?_)).bind fun _ _ => keepsWell_pure trivial
        exact upright_of_metadata hdesired.upright rfl rfl rfl

end

namespace Composition

variable {composite : Resource} {outcome : Outcome}

theorem publishAll_keepsWell (about : Reference) (events : List Event) :
    (publishAll about events).KeepsWell fun _ => True := by
  induction events with
  | nil => exact Program.keepsWell_done trivial
  | cons event rest ih => exact (Attempt.keepsWell_publish about event).bind fun _ _ => ih

theorem publishDetails_keepsWell (houtcome : outcome.connectionDetails.Sorted)
    (defaultNamespace : Option String) (composite : Resource) :
    (publishDetails defaultNamespace composite outcome).KeepsWell fun _ => True := by
  refine Program.KeepsWell.bind
    (Resource.publishDetails_keepsWell houtcome defaultNamespace composite) ?_
  rintro (e | _ | _) -
  · exact (Attempt.keepsWell_publish _ _).bind fun _ _ => Program.keepsWell_done trivial
  · exact Program.keepsWell_done trivial
  · exact (Attempt.keepsWell_publish _ _).bind fun _ _ => Program.keepsWell_done trivial

theorem reportReadiness_keepsWell (now : Instant) (hcomposite : composite.Definite)
    (outcome : Outcome) : (reportReadiness now composite outcome).KeepsWell fun _ => True := by
  have hset : IfOk (fun result : Bool × Resource => result.2.Definite)
      (composite.setCondition now (readyCondition outcome)) :=
    ifOk_iff.mpr fun _ => hcomposite.setCondition
  refine (Attempt.keepsWell_ofExcept (ifOk_mapError.mpr hset)).bind ?_
  rintro ⟨changed, reported⟩ (hreported : reported.Definite)
  dsimp only
  split
  · have hpatch : (Json.object [("status", (reported.body.get? "status").getD .null)]).Ordered :=
      Json.ordered_field (hreported.upright.body.getD "status")
    exact (Attempt.keepsWell_asking (Attempt.keepsWell_patchStatus hreported hpatch)).bind fun _ _ =>
      Attempt.keepsWell_pure trivial
  · exact Attempt.keepsWell_pure trivial

/-- A pass keeps a store well. -/
theorem reconcile_keepsWell {request : CompositionRequest} (hrequest : LeavesTypes request)
    (hcomposite : composite.Definite) (defaultNamespace : Option String) (now : Instant) :
    (reconcile .standard defaultNamespace now request composite).KeepsWell fun _ => True := by
  refine Program.KeepsWell.bind (compose_keepsWell hrequest hcomposite) ?_
  rintro ⟨e | outcome, composed⟩ hend
  · exact (Attempt.keepsWell_publish _ _).bind fun _ _ => Program.keepsWell_done trivial
  · obtain ⟨houtcome, hcomposed⟩ := hend
    refine (publishAll_keepsWell composite.reference outcome.events).bind fun _ _ => ?_
    refine (publishDetails_keepsWell houtcome defaultNamespace composed).bind fun _ _ => ?_
    exact (reportReadiness_keepsWell now hcomposed outcome).bind fun _ _ =>
      Attempt.keepsWell_pure trivial

/-- A pass against a store in memory in which all forms lie where they belong is one against a store
that is kept well: whatever the store refuses and however far the pass gets, all forms still lie where
they belong. -/
theorem reconcile_filing {m last : Memory} {log : List Exchange} {request : CompositionRequest}
    {q : Program (Except CompositionError Nat)} (hm : m.Filed) (hrequest : LeavesTypes request)
    (hcomposite : composite.Definite) (defaultNamespace : Option String) (now : Instant)
    (h : Program.Reaches Obeys (reconcile .standard defaultNamespace now request composite).run m log
      q last) :
    Program.Reaches Filing (reconcile .standard defaultNamespace now request composite).run m log
      q last ∧ last.Filed := by
  have hpass := reconcile_keepsWell hrequest hcomposite defaultNamespace now
  have hreaches := hpass.reaches_filing hm h
  exact ⟨hreaches, filed_of_reaches hm hreaches⟩

end Composition

end ResourceComposition
