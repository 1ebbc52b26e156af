import Mathlib.Data.List.Forall2
import ResourceComposition.Composition.Basic
import ResourceComposition.Proofs.Collection
import ResourceComposition.Proofs.Turns

/-!
# The course of a composition

A composition first plans and then carries out its plan. Planning associates the templates and
renders them: it reads objects, deletes such as belong to no template, and asks for names, but
stores nothing. Carrying out writes the composite and applies the rendered resources: it deletes
nothing. `Composition.compose_eq` says that this is all there is to it.

`Program.Always` bounds the calls of both halves, whatever the world replies, and
`Composition.compose_phases` those of a composition that may stop anywhere. What the halves come to
in a world, if they succeed, is read off their records: `Planned` says how the rendered resources
were made, and `Settled` how their entries in the outcome were.
-/

namespace ResourceComposition

/-! ### Which calls are made -/

namespace Program

variable {σ α β : Type} {allowed : Call → Prop}

theorem Always.bind {p : Program α} {f : α → Program β} (hp : p.Always allowed)
    (hf : ∀ a, (f a).Always allowed) : (p.bind f).Always allowed := by
  induction p with
  | done a => exact hf a
  | call request resume ih =>
    exact ⟨hp.1, fun reply => ih reply (hp.2 reply)⟩

theorem always_ask {request : Call} (h : allowed request) : (ask request).Always allowed :=
  ⟨h, fun _ => trivial⟩

theorem Always.mono {allowed' : Call → Prop} {p : Program α} (hp : p.Always allowed)
    (h : ∀ request, allowed request → allowed' request) : p.Always allowed' := by
  induction p with
  | done a => trivial
  | call request resume ih => exact ⟨h request hp.1, fun reply => ih reply (hp.2 reply)⟩

/-- All exchanges on the way of a program are of the calls that it can make. -/
theorem Always.of_reaches {world : World σ} {p q : Program α} {s last : σ} {log : List Exchange}
    (hp : p.Always allowed) (h : Reaches world p s log q last) :
    ∀ exchange ∈ log, allowed exchange.request := by
  induction h with
  | here => simp
  | call _ _ ih => exact List.forall_mem_cons.mpr ⟨hp.1, ih (hp.2 _)⟩

/-- However far a program gets that goes on after another, the calls of the one come before the calls
of the other. -/
theorem Always.phases {world : World σ} {first second : Call → Prop} {p : Program α}
    {f : α → Program β} {q : Program β} {s last : σ} {log : List Exchange} (hp : p.Always first)
    (hf : ∀ a, (f a).Always second) (h : Reaches world (p.bind f) s log q last) :
    ∃ before after, log = before ++ after ∧ (∀ exchange ∈ before, first exchange.request) ∧
      ∀ exchange ∈ after, second exchange.request := by
  induction p generalizing s log with
  | done a => exact ⟨[], log, rfl, by simp, (hf a).of_reaches h⟩
  | call request resume ih =>
    cases h with
    | here => exact ⟨[], [], rfl, by simp, by simp⟩
    | call hreply hrest =>
      obtain ⟨before, after, rfl, hbefore, hafter⟩ := ih _ (hp.2 _) hrest
      exact ⟨_ :: before, after, rfl, List.forall_mem_cons.mpr ⟨hp.1, hbefore⟩, hafter⟩

end Program

namespace Attempt

variable {α β : Type} {allowed : Call → Prop}

/-- All calls that an attempt can make have a property. -/
def Always (allowed : Call → Prop) (p : Attempt α) : Prop := p.run.Always allowed

theorem always_pure (a : α) : (pure a : Attempt α).Always allowed := trivial

theorem always_throw (e : CompositionError) : (throw e : Attempt α).Always allowed := trivial

theorem always_ofExcept (result : Except CompositionError α) :
    (ofExcept result).Always allowed := trivial

theorem Always.bind {p : Attempt α} {f : α → Attempt β} (hp : p.Always allowed)
    (hf : ∀ a, (f a).Always allowed) : (p >>= f).Always allowed := by
  refine Program.Always.bind hp ?_
  rintro (e | a)
  · trivial
  · exact hf a

theorem always_asking {p : Program (Except Error α)} {failure : Error → CompositionError}
    (hp : p.Always allowed) : (asking p failure).Always allowed :=
  Program.Always.bind hp fun _ => trivial

theorem always_find {reference : Reference} {failure : Error → CompositionError}
    (h : allowed (.get reference)) : (find reference failure).Always allowed := by
  refine always_asking (Program.Always.bind (Program.always_ask h) ?_)
  rintro (e | object?) <;> trivial

end Attempt

namespace Composing

variable {α β : Type} {allowed : Call → Prop}

/-- All calls that a step can make have a property, whatever the composite is. -/
def Always (allowed : Call → Prop) (p : Composing α) : Prop :=
  ∀ composite, (p.run composite).Always allowed

theorem always_pure (a : α) : (pure a : Composing α).Always allowed := fun _ => trivial

theorem always_throw (e : CompositionError) : (throw e : Composing α).Always allowed :=
  fun _ => trivial

theorem always_get : (get : Composing Resource).Always allowed := fun _ => trivial

theorem always_setComposite (c : Resource) : (setComposite c).Always allowed := fun _ => trivial

theorem Always.bind {p : Composing α} {f : α → Composing β} (hp : p.Always allowed)
    (hf : ∀ a, (f a).Always allowed) : (p >>= f).Always allowed := by
  refine fun composite => Program.Always.bind (hp composite) ?_
  rintro ⟨e | a, composite₁⟩
  · trivial
  · exact hf a composite₁

theorem always_during {stage : Stage} {p : Attempt α} (hp : p.Always allowed) :
    (during stage p).Always allowed := by
  refine fun _ => Program.Always.bind hp ?_
  rintro (e | a) <;> trivial

theorem always_renderComposed {t : Template} {environment : Json} {before : Resource}
    (h : ∀ composite, (t.render environment composite before).Always allowed) :
    (rendering (Renderer.composed t environment) before).Always allowed := by
  intro composite
  rw [run_renderComposed]
  exact Program.Always.bind (h composite) fun _ => trivial

theorem always_renderComposite (t : Template) (environment : Json) (composed : Resource) :
    (rendering (Renderer.composite t environment) composed).Always allowed := by
  intro composite
  refine Program.Always.bind ?_ fun _ => trivial
  simp only [Renderer.composite, ExceptT.run]
  cases Patch.applyToComposite t.patches composed composite <;> trivial

end Composing

/-- The calls of planning: what is stored can only become less. -/
def Call.Plans : Call → Prop
  | .get _ | .delete _ | .create _ true => True
  | _ => False

/-- The calls of association: it reads, and deletes what is left over. -/
def Call.Clears : Call → Prop
  | .get _ | .delete _ => True
  | _ => False

theorem Call.Clears.plans {request : Call} (h : request.Clears) : request.Plans := by
  cases request with
  | get reference => trivial
  | delete object => trivial
  | _ => exact h.elim

/-- The calls of rendering: what is stored stays as it is. -/
def Call.Probes : Call → Prop
  | .get _ | .create _ true => True
  | _ => False

theorem Call.Probes.plans {request : Call} (h : request.Probes) : request.Plans := by
  cases request with
  | get reference => trivial
  | create object dryRun => cases dryRun <;> trivial
  | _ => exact h.elim

/-- The calls of carrying out a plan: nothing is deleted. -/
def Call.CarriesOut : Call → Prop
  | .get _ | .create _ false | .patch _ _ | .patchStatus _ _ => True
  | _ => False

namespace Association

theorem turn_always {composite : Resource} {reference : Reference} {bound : List Association} :
    (turn composite reference bound).Always Call.Clears := by
  refine (Attempt.always_find trivial).bind ?_
  rintro (_ | composed)
  · exact Attempt.always_pure _
  · dsimp only
    cases composed.templateName? with
    | none => exact Attempt.always_pure _
    | some name =>
      dsimp only
      cases bindName name reference bound with
      | some more => exact Attempt.always_pure _
      | none =>
        dsimp only
        split
        · exact (Attempt.always_asking (Program.always_ask trivial)).bind fun _ =>
            Attempt.always_pure _
        · exact Attempt.always_pure _

theorem collect_always {composite : Resource} {fallback bound : List Association}
    {references : List Reference} :
    (collect composite fallback references bound).Always Call.Clears := by
  induction references generalizing bound with
  | nil => exact Attempt.always_pure _
  | cons reference rest ih =>
    rw [collect_cons]
    refine turn_always.bind ?_
    rintro (_ | more)
    · exact Attempt.always_pure _
    · exact ih

theorem byName_always (composite : Resource) (templates : List Template) :
    (byName composite templates).Always Call.Clears := by
  unfold byName
  split
  · exact (Attempt.always_ofExcept _).bind fun _ => Attempt.always_pure _
  · exact (Attempt.always_ofExcept _).bind fun _ => collect_always

theorem turn_templates {σ : Type} {world : World σ} {s last : σ} {log : List Exchange}
    {composite : Resource} {reference : Reference} {bound more : List Association}
    (h : (turn composite reference bound).Succeeds world s log (some more) last) :
    more.map (·.template) = bound.map (·.template) := by
  obtain ⟨object?, middle, early, late, rfl, -, hrest⟩ := Attempt.succeeds_bind.mp h
  cases object? with
  | none =>
    obtain ⟨hsame, -⟩ := Attempt.succeeds_pure.mp hrest
    rw [Option.some.inj hsame]
  | some composed =>
    dsimp only at hrest
    split at hrest
    · obtain ⟨habsurd, -⟩ := Attempt.succeeds_pure.mp hrest
      cases habsurd
    · split at hrest
      · next hbind =>
        obtain ⟨hsame, -⟩ := Attempt.succeeds_pure.mp hrest
        rw [← Option.some.inj hsame, bindName_templates hbind]
      · split at hrest
        · obtain ⟨_, middle', early', late', rfl, -, hend⟩ := Attempt.succeeds_bind.mp hrest
          obtain ⟨hsame, -⟩ := Attempt.succeeds_pure.mp hend
          rw [Option.some.inj hsame]
        · obtain ⟨hsame, -⟩ := Attempt.succeeds_pure.mp hrest
          rw [Option.some.inj hsame]

/-- Matching by name leaves out no template. -/
theorem collect_templates {σ : Type} {world : World σ} {s last : σ} {log : List Exchange}
    {composite : Resource} {fallback bound associations : List Association}
    {references : List Reference} (hfallback : fallback.map (·.template) = bound.map (·.template))
    (h : (collect composite fallback references bound).Succeeds world s log associations last) :
    associations.map (·.template) = bound.map (·.template) := by
  induction references generalizing bound s log with
  | nil =>
    obtain ⟨rfl, -⟩ := Attempt.succeeds_pure.mp h
    rfl
  | cons reference rest ih =>
    rw [collect_cons] at h
    obtain ⟨more?, middle, early, late, rfl, hturn, hrest⟩ := Attempt.succeeds_bind.mp h
    cases more? with
    | none =>
      obtain ⟨rfl, -⟩ := Attempt.succeeds_pure.mp hrest
      exact hfallback
    | some more =>
      have hmore := turn_templates hturn
      rw [← hmore]
      exact ih (hfallback.trans hmore.symm) hrest

theorem byName_templates {σ : Type} {world : World σ} {s last : σ} {log : List Exchange}
    {composite : Resource} {templates : List Template} {associations : List Association}
    (h : (byName composite templates).Succeeds world s log associations last) :
    associations.map (·.template) = templates := by
  unfold byName at h
  split at h
  · obtain ⟨references, middle, early, late, rfl, -, hrest⟩ := Attempt.succeeds_bind.mp h
    obtain ⟨rfl, -⟩ := Attempt.succeeds_pure.mp hrest
    exact byOrder_templates templates references
  · obtain ⟨references, middle, early, late, rfl, -, hrest⟩ := Attempt.succeeds_bind.mp h
    have hempty := byOrder_templates templates []
    rw [collect_templates ((byOrder_templates templates references).trans hempty.symm) hrest, hempty]

end Association

namespace Template

theorem allocateName_always (r : Resource) : (allocateName r).Always Call.Probes := by
  unfold allocateName
  split
  · refine (Attempt.always_asking (Program.always_ask trivial)).bind fun wouldBe => ?_
    split
    · exact Attempt.always_pure _
    · exact Attempt.always_throw _
  · exact Attempt.always_pure _

theorem render_always (t : Template) (environment : Json) (composite before : Resource) :
    (t.render environment composite before).Always Call.Probes :=
  (Attempt.always_ofExcept _).bind allocateName_always

end Template

namespace Resource

theorem apply_always (r : Resource) : r.apply.Always Call.CarriesOut := by
  have hcreate : r.createStored.Always Call.CarriesOut :=
    Attempt.always_asking (Program.always_ask trivial)
  unfold apply
  split
  · exact hcreate
  · refine (Attempt.always_asking (Program.always_ask trivial)).bind ?_
    rintro (_ | _)
    · exact hcreate
    · exact Attempt.always_asking (Program.always_ask trivial)

/-- Fetching connection details only reads. -/
theorem fetchDetails_always {allowed : Call → Prop} (hget : ∀ reference, allowed (.get reference))
    (r : Resource) : r.fetchDetails.Always allowed := by
  refine (Attempt.always_ofExcept _).bind ?_
  rintro (_ | secret)
  · exact Attempt.always_pure _
  · refine (Attempt.always_find (hget _)).bind ?_
    rintro (_ | stored)
    · exact Attempt.always_pure _
    · exact Attempt.always_ofExcept _

end Resource

namespace Composition

open Composing

/-! ### Planning and carrying out -/

/-- Associate the templates of a revision and render them. -/
def plan (c : Collaborators) (request : CompositionRequest) :
    Composing (List (Association × Rendition)) := do
  let templates ← Composing.during .inline (.ofExcept request.revision.inlinedTemplates)
  let composite : Resource ← get
  let associations ← Composing.during .associate (c.associate composite templates)
  renderAll c request.environment associations

/-- Write the composite and apply what was rendered. -/
def carryOut (c : Collaborators) (environment : Json) (renditions : List (Association × Rendition)) :
    Composing Outcome := do
  persistReferences (renditions.filterMap keptReference)
  let settled ← settleAll c environment (renderedOnly renditions)
  persistComposite
  return {
    composed := settled.map (·.1)
    connectionDetails := settled.foldl (fun details entry => details.insertAll entry.2) []
    events := warnings 0 renditions }

theorem compose_eq (c : Collaborators) (request : CompositionRequest) :
    compose c request = plan c request >>= carryOut c request.environment := by
  unfold compose plan carryOut
  simp only [bind_assoc]

variable {environment : Json}

theorem observe_always (reference : Option Reference) : (observe reference).Always Call.Probes := by
  cases reference with
  | none => exact Attempt.always_pure _
  | some reference =>
    refine (Attempt.always_find trivial).bind ?_
    rintro (_ | composed) <;> exact Attempt.always_pure _

theorem renderOne_always (a : Association) :
    (renderOne .standard environment a).Always Call.Probes := by
  refine (always_during (observe_always a.reference)).bind fun before => ?_
  refine (always_renderComposed fun composite =>
    a.template.render_always environment composite before).bind ?_
  rintro (e | composed)
  · dsimp only
    split
    · exact always_throw _
    · exact always_pure _
  · exact always_pure _

theorem renderAll_always (associations : List Association) :
    (renderAll .standard environment associations).Always Call.Probes := by
  induction associations with
  | nil => exact always_pure _
  | cons a rest ih =>
    exact (renderOne_always a).bind fun _ => ih.bind fun _ => always_pure _

theorem plan_always (request : CompositionRequest) :
    (plan .standard request).Always Call.Plans := by
  refine (always_during (Attempt.always_ofExcept _)).bind fun templates =>
    always_get.bind fun composite => ?_
  have hassociate : (Association.byName composite templates).Always Call.Plans :=
    Program.Always.mono (Association.byName_always composite templates) fun _ => Call.Clears.plans
  exact (always_during hassociate).bind fun associations composite =>
    (renderAll_always associations composite).mono fun _ => Call.Probes.plans

theorem applyComposite_always : applyComposite.Always Call.CarriesOut :=
  always_get.bind fun composite =>
    (always_during composite.apply_always).bind always_setComposite

theorem persistReferences_always (references : List Reference) :
    (persistReferences references).Always Call.CarriesOut :=
  always_get.bind fun _ => (always_during (Attempt.always_ofExcept _)).bind fun referring =>
    (always_setComposite referring).bind fun _ => applyComposite_always

theorem settleOne_always (made : Template × Resource) :
    (settleOne .standard environment made.1 made.2).Always Call.CarriesOut := by
  refine (always_renderComposite made.1 environment made.2).bind ?_
  rintro (e | composed)
  · exact always_throw _
  · exact (always_during composed.apply_always).bind fun object =>
      (always_during (object.fetchDetails_always fun _ => trivial)).bind fun fetched =>
        (always_during (Attempt.always_ofExcept _)).bind fun details =>
          (always_during (Attempt.always_ofExcept _)).bind fun ready => always_pure _

theorem settleAll_always (made : List (Template × Resource)) :
    (settleAll .standard environment made).Always Call.CarriesOut := by
  induction made with
  | nil => exact always_pure _
  | cons first rest ih =>
    exact (settleOne_always first).bind fun _ => ih.bind fun _ => always_pure _

theorem persistComposite_always : persistComposite.Always Call.CarriesOut := by
  refine always_get.bind fun rendered => applyComposite_always.bind fun _ => ?_
  split
  · exact always_pure _
  · refine always_get.bind fun stored => ?_
    split
    · exact always_pure _
    · exact (always_during (Attempt.always_asking (Program.always_ask trivial))).bind
        always_setComposite

theorem carryOut_always (renditions : List (Association × Rendition)) :
    (carryOut .standard environment renditions).Always Call.CarriesOut :=
  (persistReferences_always _).bind fun _ => (settleAll_always _).bind fun _ =>
    persistComposite_always.bind fun _ => always_pure _

/-- However far a composition gets, and whatever the world replies: at first it only reads, deletes
and asks for names, and once it has created or patched anything it deletes nothing more. -/
theorem compose_phases {σ : Type} {world : World σ} {s last : σ} {log : List Exchange}
    {request : CompositionRequest} {composite : Resource}
    {q : Program (Except CompositionError Outcome × Resource)}
    (h : ((compose .standard request).run composite).Reaches world s log q last) :
    ∃ planning acting, log = planning ++ acting ∧
      (∀ exchange ∈ planning, exchange.request.Plans) ∧
      ∀ exchange ∈ acting, exchange.request.CarriesOut := by
  rw [compose_eq] at h
  refine Program.Always.phases (plan_always request composite) ?_ h
  rintro ⟨e | renditions, composite₁⟩
  · trivial
  · exact carryOut_always renditions composite₁

/-! ### What comes of planning -/

/-- The state that a resource was found in: it was read, or all that is known of it is what a
reference says, if anything. -/
def Observed (log : List Exchange) (before : Resource) : Prop :=
  (∃ reference, ⟨.get reference, .ok (some before)⟩ ∈ log) ∨ before = {} ∨
    ∃ reference, before = .ofReference reference

/-- A resource was made by a template from the state that it was found in, and it has a name. -/
structure Made (environment : Json) (composite : Resource) (log : List Exchange) (t : Template)
    (r : Resource) : Prop where
  /-- What the template made of the state, and the name that may have been given to it then. -/
  prepared : ∃ before prepared, Observed log before ∧
    t.prepare environment composite before = .ok prepared ∧
    r = { prepared with metadata := { prepared.metadata with name := r.metadata.name } }
  /-- There is a name. -/
  named : r.metadata.unnamed = false

/-- What planning comes to by its record. -/
structure Planned (request : CompositionRequest) (composite : Resource) (log : List Exchange)
    (renditions : List (Association × Rendition)) : Prop where
  /-- The templates are those of the revision, in order. -/
  templates : request.revision.inlinedTemplates = .ok (renditions.map (·.1.template))
  /-- Nothing was stored. -/
  plans : ∀ exchange ∈ log, exchange.request.Plans
  /-- What was rendered was made by its template. -/
  made : ∀ a r, (a, .rendered r) ∈ renditions →
    Made request.environment composite log a.template r

variable {σ : Type} {world : World σ} {s last : σ} {log more : List Exchange}
  {composite composite' before r : Resource} {t : Template} {request : CompositionRequest}

theorem Made.mono (h : Made environment composite log t r) (hsub : ∀ e ∈ log, e ∈ more) :
    Made environment composite more t r where
  named := h.named
  prepared := by
    obtain ⟨before, prepared, hobserved, hprepared⟩ := h.prepared
    refine ⟨before, prepared, hobserved.imp_left ?_, hprepared⟩
    rintro ⟨reference, hmem⟩
    exact ⟨reference, hsub _ hmem⟩

theorem observe_observed {reference : Option Reference}
    (h : (observe reference).Succeeds world s log before last) : Observed log before := by
  cases reference with
  | none =>
    obtain ⟨rfl, -⟩ := Attempt.succeeds_pure.mp h
    exact .inr (.inl rfl)
  | some reference =>
    obtain ⟨object?, middle, early, late, rfl, hfind, hrest⟩ := Attempt.succeeds_bind.mp h
    obtain ⟨reply, rfl, -, hreply⟩ := Attempt.succeeds_find.mp hfind
    cases object? with
    | none =>
      obtain ⟨rfl, -⟩ := Attempt.succeeds_pure.mp hrest
      exact .inr (.inr ⟨reference, rfl⟩)
    | some object =>
      obtain ⟨rfl, -⟩ := Attempt.succeeds_pure.mp hrest
      obtain rfl | ⟨e, -, -, habsurd⟩ := hreply
      · exact .inl ⟨reference, List.mem_append_left _ (List.mem_singleton_self _)⟩
      · cases habsurd

/-- A resource keeps its name, or is given one that is not empty. -/
theorem allocateName_named {prepared : Resource}
    (h : (Template.allocateName prepared).Succeeds world s log r last) :
    r = { prepared with metadata := { prepared.metadata with name := r.metadata.name } } ∧
      r.metadata.unnamed = false := by
  unfold Template.allocateName at h
  split at h
  · obtain ⟨wouldBe, middle, early, late, rfl, -, hrest⟩ := Attempt.succeeds_bind.mp h
    split at hrest
    · next name hname =>
      obtain ⟨rfl, -⟩ := Attempt.succeeds_pure.mp hrest
      obtain ⟨-, hne⟩ := Option.filter_eq_some_iff.mp hname
      exact ⟨rfl, by simpa [Metadata.unnamed] using hne⟩
    · exact absurd hrest Attempt.succeeds_throw
  · next hnamed =>
    obtain ⟨rfl, -⟩ := Attempt.succeeds_pure.mp h
    exact ⟨rfl, by simpa using hnamed⟩

theorem renderOne_made {a : Association} {rendition : Rendition}
    (h : (renderOne .standard environment a).Succeeds world composite s log rendition composite'
      last) : composite' = composite ∧
      ∀ r, rendition = .rendered r → Made environment composite log a.template r := by
  obtain ⟨before, middle, _, early, late, rfl, hduring, hrest⟩ := succeeds_bind.mp h
  obtain ⟨rfl, hobserve⟩ := succeeds_during.mp hduring
  obtain ⟨result, middle', _, early', late', rfl, hrendering, hend⟩ := succeeds_bind.mp hrest
  obtain ⟨rfl, hrender⟩ := succeeds_renderComposed.mp hrendering
  cases result with
  | error e =>
    dsimp only at hend
    split at hend
    · exact absurd hend succeeds_throw
    · obtain ⟨rfl, rfl, -⟩ := succeeds_pure.mp hend
      exact ⟨rfl, by simp⟩
  | ok composed =>
    obtain ⟨rfl, rfl, rfl, rfl⟩ := succeeds_pure.mp hend
    refine ⟨rfl, ?_⟩
    rintro r heq
    obtain rfl := Rendition.rendered.inj heq
    obtain ⟨prepared, _, first, second, rfl, hprepare, hname⟩ := Attempt.succeeds_bind.mp hrender
    obtain ⟨hprepared, rfl, rfl⟩ := Attempt.succeeds_ofExcept.mp hprepare
    obtain ⟨hsame, hnamed⟩ := allocateName_named hname
    have hmade : Made environment _ early a.template composed :=
      ⟨⟨before, prepared, observe_observed hobserve, hprepared, hsame⟩, hnamed⟩
    exact hmade.mono fun e he => List.mem_append_left _ he

theorem renderAll_made {associations : List Association}
    {renditions : List (Association × Rendition)}
    (h : (renderAll .standard environment associations).Succeeds world composite s log renditions
      composite' last) : composite' = composite ∧ renditions.map (·.1) = associations ∧
      ∀ a r, (a, .rendered r) ∈ renditions → Made environment composite log a.template r := by
  induction associations generalizing s last log renditions composite' with
  | nil =>
    obtain ⟨rfl, rfl, -⟩ := succeeds_pure.mp h
    exact ⟨rfl, rfl, by simp⟩
  | cons a rest ih =>
    obtain ⟨rendition, middle, _, early, late, rfl, hone, hrest⟩ := succeeds_bind.mp h
    obtain ⟨rfl, hmade⟩ := renderOne_made hone
    obtain ⟨others, middle', _, early', late', rfl, hall, hend⟩ := succeeds_bind.mp hrest
    obtain ⟨rfl, hassociations, hothers⟩ := ih hall
    obtain ⟨rfl, rfl, rfl, rfl⟩ := succeeds_pure.mp hend
    refine ⟨rfl, by rw [List.map_cons, hassociations], fun b r hmem => ?_⟩
    obtain heq | hmem := List.mem_cons.mp hmem
    · obtain ⟨rfl, hrendition⟩ := Prod.mk.inj heq
      exact (hmade r hrendition.symm).mono fun e he => List.mem_append_left _ he
    · exact (hothers b r hmem).mono fun e he =>
        List.mem_append_right _ (List.mem_append_left _ he)

/-- Planning leaves the composite as it is. -/
theorem plan_planned {renditions : List (Association × Rendition)}
    (h : (plan .standard request).Succeeds world composite s log renditions composite' last) :
    composite' = composite ∧ Planned request composite log renditions := by
  have hplans := (plan_always request composite).of_reaches h
  obtain ⟨templates, middle, _, early, late, rfl, hinline, hrest⟩ := succeeds_bind.mp h
  obtain ⟨rfl, hsettled⟩ := succeeds_during.mp hinline
  obtain ⟨htemplates, rfl, rfl⟩ := Attempt.succeeds_ofExcept.mp hsettled
  obtain ⟨_, middle', _, early', late', rfl, hget, hrest⟩ := succeeds_bind.mp hrest
  obtain ⟨rfl, rfl, rfl, rfl⟩ := succeeds_get.mp hget
  obtain ⟨associations, middle'', _, early'', late'', rfl, hduring, hrender⟩ :=
    succeeds_bind.mp hrest
  obtain ⟨rfl, hassociate⟩ := succeeds_during.mp hduring
  obtain ⟨rfl, hassociations, hmade⟩ := renderAll_made hrender
  refine ⟨rfl, ?_, hplans, fun a r hmem => (hmade a r hmem).mono fun e he => by simp [he]⟩
  rw [htemplates, ← Association.byName_templates hassociate, ← hassociations, List.map_map]
  rfl

/-- A composition succeeds if its plan does, and then the carrying out of the plan. -/
theorem compose_succeeds {outcome : Outcome} :
    (compose .standard request).Succeeds world composite s log outcome composite' last ↔
      ∃ renditions planning acting planned, log = planning ++ acting ∧
        (plan .standard request).Succeeds world composite s planning renditions composite planned ∧
        (carryOut .standard request.environment renditions).Succeeds world composite planned acting
          outcome composite' last := by
  rw [compose_eq, succeeds_bind]
  constructor
  · rintro ⟨renditions, planned, _, planning, acting, rfl, hplan, hcarry⟩
    obtain ⟨rfl, -⟩ := plan_planned hplan
    exact ⟨renditions, planning, acting, planned, rfl, hplan, hcarry⟩
  · rintro ⟨renditions, planning, acting, planned, rfl, hplan, hcarry⟩
    exact ⟨renditions, planned, composite, planning, acting, rfl, hplan, hcarry⟩

theorem mem_renderedOnly {renditions : List (Association × Rendition)} :
    (t, r) ∈ renderedOnly renditions ↔ ∃ a, (a, .rendered r) ∈ renditions ∧ a.template = t := by
  induction renditions with
  | nil => simp [renderedOnly]
  | cons first rest ih =>
    obtain ⟨b, composed | cause⟩ := first
    · simp only [renderedOnly, List.mem_cons, Prod.mk.injEq, Rendition.rendered.injEq, ih]
      constructor
      · rintro (⟨rfl, rfl⟩ | ⟨a, hmem, rfl⟩)
        · exact ⟨b, .inl ⟨rfl, rfl⟩, rfl⟩
        · exact ⟨a, .inr hmem, rfl⟩
      · rintro ⟨a, ⟨rfl, rfl⟩ | hmem, rfl⟩
        · exact .inl ⟨rfl, rfl⟩
        · exact .inr ⟨a, hmem, rfl⟩
    · simp [renderedOnly, ih]

/-! ### What comes of carrying out -/

/-- A resource was created or patched with success; the object is what the server made of it. -/
def Applied (log : List Exchange) (r object : Resource) : Prop :=
  ⟨.create r false, .ok object⟩ ∈ log ∨ ⟨.patch r r.encode, .ok object⟩ ∈ log

/-- What an entry of the outcome says of a rendered resource is so: it was applied, and the checks of
its template, made on the object that came of it, say whether it is ready. -/
structure Settled (log : List Exchange) (made : Template × Resource) (entry : ComposedResource) :
    Prop where
  /-- The entry carries the name of the template. -/
  name : entry.templateName = made.1.name.getD ""
  /-- The resource was applied. -/
  applied : Applied log made.2 entry.object
  /-- The checks were made. -/
  ready : entry.object.readyBy made.1.readinessChecks = .ok entry.ready

theorem Settled.mono {made : Template × Resource} {entry : ComposedResource}
    (h : Settled log made entry) (hsub : ∀ e ∈ log, e ∈ more) : Settled more made entry where
  name := h.name
  applied := h.applied.imp (hsub _) (hsub _)
  ready := h.ready

theorem apply_applied {object : Resource} (h : r.apply.Succeeds world s log object last) :
    Applied log r object := by
  have hcreate {s : σ} {log : List Exchange} (h : r.createStored.Succeeds world s log object last) :
      log = [⟨.create r false, .ok object⟩] :=
    (Program.reaches_ask.mp (Attempt.succeeds_asking.mp h)).2
  unfold Resource.apply at h
  split at h
  · exact .inl (by simp [hcreate h])
  · obtain ⟨object?, middle, early, late, rfl, -, hrest⟩ := Attempt.succeeds_bind.mp h
    cases object? with
    | none => exact .inl (by simp [hcreate hrest])
    | some stored =>
      obtain ⟨-, hlate⟩ := Program.reaches_ask.mp (Attempt.succeeds_asking.mp hrest)
      exact .inr (by simp [hlate])

theorem settleOne_settled {settled : ComposedResource × ConnectionDetails}
    (h : (settleOne .standard environment t r).Succeeds world composite s log settled composite'
      last) :
    Patch.applyToComposite t.patches r composite = .ok composite' ∧
      Settled log (t, r) settled.1 := by
  obtain ⟨result, middle, composite₁, early, late, rfl, hrender, hrest⟩ := succeeds_bind.mp h
  cases result with
  | error e => exact absurd hrest succeeds_throw
  | ok composed =>
    obtain ⟨rfl, hpatched, rfl, rfl⟩ := (succeeds_renderComposite environment).mp hrender
    obtain ⟨object, _, _, applying, late, rfl, hduring, hbody⟩ := succeeds_bind.mp hrest
    obtain ⟨rfl, happly⟩ := succeeds_during.mp hduring
    obtain ⟨fetched, _, _, fetching, late₁, rfl, hfetch, hrest₁⟩ := succeeds_bind.mp hbody
    obtain ⟨rfl, -⟩ := succeeds_during.mp hfetch
    obtain ⟨details, _, _, extracting, late₂, rfl, hextract, hrest₂⟩ := succeeds_bind.mp hrest₁
    obtain ⟨rfl, -⟩ := succeeds_during.mp hextract
    obtain ⟨ready, _, _, checking, late₃, rfl, hcheck, hend⟩ := succeeds_bind.mp hrest₂
    obtain ⟨rfl, hchecked⟩ := succeeds_during.mp hcheck
    obtain ⟨hready, -⟩ := Attempt.succeeds_ofExcept.mp hchecked
    obtain ⟨rfl, rfl, -⟩ := succeeds_pure.mp hend
    refine ⟨hpatched, rfl, ?_, hready⟩
    exact (apply_applied happly).imp (by simp +contextual) (by simp +contextual)

/-- The rendered resources are settled one by one. What holds of the composite and is kept by the
patches of the templates holds of it in the end. -/
theorem settleAll_settled {P : Resource → Prop} {made : List (Template × Resource)}
    {settled : List (ComposedResource × ConnectionDetails)}
    (hpatch : ∀ m ∈ made, ∀ c c', Patch.applyToComposite m.1.patches m.2 c = .ok c' → P c → P c')
    (h : (settleAll .standard environment made).Succeeds world composite s log settled composite'
      last) :
    List.Forall₂ (Settled log) made (settled.map (·.1)) ∧ (P composite → P composite') := by
  induction made generalizing s last log settled composite composite' with
  | nil =>
    obtain ⟨rfl, rfl, -⟩ := succeeds_pure.mp h
    exact ⟨.nil, id⟩
  | cons first rest ih =>
    obtain ⟨hfirst, hothers⟩ := List.forall_mem_cons.mp hpatch
    obtain ⟨one, middle, composite₁, early, late, rfl, hone, hrest⟩ := succeeds_bind.mp h
    obtain ⟨hpatched, hsettled⟩ := settleOne_settled hone
    obtain ⟨others, middle', _, early', late', rfl, hall, hend⟩ := succeeds_bind.mp hrest
    obtain ⟨hmore, hkept⟩ := ih hothers hall
    obtain ⟨rfl, rfl, rfl, rfl⟩ := succeeds_pure.mp hend
    refine ⟨.cons (hsettled.mono fun e he => List.mem_append_left _ he) (hmore.imp fun m entry h =>
      h.mono fun e he => List.mem_append_right _ (List.mem_append_left _ he)), fun hP => ?_⟩
    exact hkept (hfirst _ _ hpatched hP)

/-- The composite is written, and is then what came of it. -/
theorem succeeds_applyComposite :
    applyComposite.Succeeds world composite s log () composite' last ↔
      composite.apply.Succeeds world s log composite' last := by
  refine succeeds_get_bind.trans (succeeds_bind.trans ⟨?_, fun h => ?_⟩)
  · rintro ⟨object, _, _, _, _, rfl, hduring, hend⟩
    obtain ⟨rfl, happly⟩ := succeeds_during.mp hduring
    obtain ⟨rfl, rfl, rfl⟩ := succeeds_setComposite.mp hend
    simpa using happly
  · exact ⟨composite', last, composite, log, [], by simp, succeeds_during.mpr ⟨rfl, h⟩,
      succeeds_setComposite.mpr ⟨rfl, rfl, rfl⟩⟩

/-- The composite is given references and written. -/
theorem succeeds_persistReferences {references : List Reference}
    (h : (persistReferences references).Succeeds world composite s log () composite' last) :
    ∃ referring, composite.setResourceRefs references = .ok referring ∧
      referring.apply.Succeeds world s log composite' last := by
  obtain ⟨referring, _, _, _, _, rfl, hduring, hrest⟩ := succeeds_bind.mp (succeeds_get_bind.mp h)
  obtain ⟨rfl, hresult⟩ := succeeds_during.mp hduring
  obtain ⟨hset, rfl, rfl⟩ := Attempt.succeeds_ofExcept.mp hresult
  obtain ⟨_, _, _, _, _, rfl, hstore, happly⟩ := succeeds_bind.mp hrest
  obtain ⟨rfl, rfl, rfl⟩ := succeeds_setComposite.mp hstore
  exact ⟨_, Except.mapError_eq_ok.mp hset, by simpa using succeeds_applyComposite.mp happly⟩

/-- The composite is written, and after that its status, unless there is none or the store has it. -/
theorem succeeds_persistComposite
    (h : persistComposite.Succeeds world composite s log () composite' last) :
    ∃ written middle applying patching, log = applying ++ patching ∧
      composite.apply.Succeeds world s applying written middle ∧
      (composite' = written ∧ last = middle ∧ patching = [] ∨
        ∃ status, composite.body.get? "status" = some status ∧
          patching = [⟨.patchStatus written (.object [("status", status)]), .ok composite'⟩] ∧
          world (.patchStatus written (.object [("status", status)])) middle (.ok composite') last) := by
  obtain ⟨_, middle, _, applying, _, rfl, happly, hrest⟩ :=
    succeeds_bind.mp (succeeds_get_bind.mp h)
  have happly := succeeds_applyComposite.mp happly
  split at hrest
  · obtain ⟨-, rfl, rfl, rfl⟩ := succeeds_pure.mp hrest
    exact ⟨_, _, applying, [], rfl, happly, .inl ⟨rfl, rfl, rfl⟩⟩
  · next status hstatus =>
    have hrest := succeeds_get_bind.mp hrest
    split at hrest
    · obtain ⟨-, rfl, rfl, rfl⟩ := succeeds_pure.mp hrest
      exact ⟨_, _, applying, [], rfl, happly, .inl ⟨rfl, rfl, rfl⟩⟩
    · obtain ⟨object, _, _, patching, _, rfl, hduring, hstore⟩ := succeeds_bind.mp hrest
      obtain ⟨rfl, hasking⟩ := succeeds_during.mp hduring
      obtain ⟨hpatch, rfl⟩ := Program.reaches_ask.mp (Attempt.succeeds_asking.mp hasking)
      obtain ⟨rfl, rfl, rfl⟩ := succeeds_setComposite.mp hstore
      exact ⟨_, middle, applying, _, by simp, happly, .inr ⟨status, hstatus, rfl, hpatch⟩⟩

/-- The references are written, all that was rendered is settled, and the composite is written. -/
theorem succeeds_carryOut {collaborators : Collaborators}
    {renditions : List (Association × Rendition)} {outcome : Outcome}
    (h : (carryOut collaborators environment renditions).Succeeds world composite s log outcome
      composite' last) :
    ∃ settled referring persisted patched middle persisting settling ending,
      log = persisting ++ (settling ++ ending) ∧
      (persistReferences (renditions.filterMap keptReference)).Succeeds world composite s persisting ()
        referring persisted ∧
      (settleAll collaborators environment (renderedOnly renditions)).Succeeds world referring
        persisted settling settled patched middle ∧
      persistComposite.Succeeds world patched middle ending () composite' last ∧
      outcome = {
        composed := settled.map (·.1)
        connectionDetails := settled.foldl (fun details entry => details.insertAll entry.2) []
        events := warnings 0 renditions } := by
  obtain ⟨_, persisted, referring, persisting, _, rfl, hpersist, hrest⟩ := succeeds_bind.mp h
  obtain ⟨settled, middle, patched, settling, _, rfl, hsettle, hrest⟩ := succeeds_bind.mp hrest
  obtain ⟨_, _, _, ending, _, rfl, hlast, hend⟩ := succeeds_bind.mp hrest
  obtain ⟨rfl, rfl, rfl, rfl⟩ := succeeds_pure.mp hend
  exact ⟨settled, referring, persisted, patched, middle, persisting, settling, ending, by simp,
    hpersist, hsettle, hlast, rfl⟩

theorem carryOut_settled {renditions : List (Association × Rendition)} {outcome : Outcome}
    (h : (carryOut .standard environment renditions).Succeeds world composite s log outcome
      composite' last) :
    List.Forall₂ (Settled log) (renderedOnly renditions) outcome.composed ∧
      outcome.events = warnings 0 renditions := by
  obtain ⟨settled, _, _, _, _, _, _, _, rfl, -, hsettle, -, rfl⟩ := succeeds_carryOut h
  obtain ⟨hsettled, -⟩ := settleAll_settled (P := fun _ => True) (fun _ _ _ _ _ => id) hsettle
  exact ⟨hsettled.imp fun m entry h => h.mono fun e he => by simp [he], rfl⟩

/-- A resource that is rendered was applied when the plan was carried out. -/
theorem applied_of_settled {renditions : List (Association × Rendition)}
    {entries : List ComposedResource} {a : Association}
    (hsettled : List.Forall₂ (Settled log) (renderedOnly renditions) entries)
    (h : (a, .rendered r) ∈ renditions) : ∃ object, Applied log r object := by
  have hmem : (a.template, r) ∈ renderedOnly renditions := mem_renderedOnly.mpr ⟨a, h, rfl⟩
  generalize renderedOnly renditions = made at hsettled hmem
  induction hsettled with
  | nil => cases hmem
  | cons hfirst _ ih =>
    rcases List.mem_cons.mp hmem with rfl | hmem
    · exact ⟨_, hfirst.applied⟩
    · exact ih hmem

/-! ### Compositions against a handler -/

/-- A composition that succeeded, in its two halves. -/
structure Course (σ : Type) where
  /-- The record of planning. -/
  planning : List Exchange
  /-- What was planned. -/
  renditions : List (Association × Rendition)
  /-- The state after planning. -/
  planned : σ
  /-- The record of carrying out. -/
  acting : List Exchange
  /-- The outcome. -/
  outcome : Outcome
  /-- The composite in the end. -/
  composite : Resource
  /-- The state in the end. -/
  last : σ

/-- The course of a composition against a handler, if it succeeds. -/
def course? (handler : Handler σ) (request : CompositionRequest) (composite : Resource) (s : σ) :
    Option (Course σ) :=
  match ((plan .standard request).run composite).run handler.logged (s, []) with
  | ((.ok renditions, _), planned, planning) =>
    match ((carryOut .standard request.environment renditions).run composite).run handler.logged
      (planned, []) with
    | ((.ok outcome, composite'), last, acting) =>
      some ⟨planning, renditions, planned, acting, outcome, composite', last⟩
    | _ => none
  | _ => none

/-- Both halves of the course succeed in the world of the handler. -/
theorem succeeds_of_course? {handler : Handler σ} {course : Course σ}
    (h : course? handler request composite s = some course) :
    (plan .standard request).Succeeds handler.world composite s course.planning course.renditions
        composite course.planned ∧
      (carryOut .standard request.environment course.renditions).Succeeds handler.world composite
        course.planned course.acting course.outcome course.composite course.last := by
  obtain ⟨planning, hplanning, hplan⟩ :=
    Program.reaches_run_logged handler ((plan .standard request).run composite) s []
  rw [course?, hplanning] at h
  generalize ((plan .standard request).run composite).run handler s = planned at h hplan
  obtain ⟨⟨_ | renditions, composite₁⟩, middle⟩ := planned
  · cases h
  · obtain ⟨acting, hacting, hcarry⟩ := Program.reaches_run_logged handler
      ((carryOut .standard request.environment renditions).run composite) middle []
    simp only [hacting] at h
    generalize ((carryOut .standard request.environment renditions).run composite).run handler
      middle = carried at h hcarry
    obtain ⟨⟨_ | outcome, composite'⟩, last⟩ := carried
    · cases h
    · obtain rfl := Option.some.inj h
      obtain ⟨rfl, -⟩ := plan_planned hplan
      exact ⟨hplan, hcarry⟩

/-- Where both halves succeed in the world of the handler, they are the course. -/
theorem course?_of_succeeds {handler : Handler σ} {course : Course σ}
    (hplan : (plan .standard request).Succeeds handler.world composite s course.planning
      course.renditions composite course.planned)
    (hcarry : (carryOut .standard request.environment course.renditions).Succeeds handler.world
      composite course.planned course.acting course.outcome course.composite course.last) :
    course? handler request composite s = some course := by
  have hplanning := Program.run_logged_of_reaches hplan []
  have hacting := Program.run_logged_of_reaches hcarry []
  simp only [course?, hplanning, hacting, List.nil_append]

/-- The composition succeeds as its course tells. -/
theorem compose_of_course? {handler : Handler σ} {course : Course σ}
    (h : course? handler request composite s = some course) :
    (compose .standard request).Succeeds handler.world composite s (course.planning ++ course.acting)
      course.outcome course.composite course.last := by
  obtain ⟨hplan, hcarry⟩ := succeeds_of_course? h
  exact compose_succeeds.mpr ⟨course.renditions, course.planning, course.acting, course.planned, rfl,
    hplan, hcarry⟩

/-- In whatever world a plan comes to its end with the record of a course, it is the plan of the
course. -/
theorem eq_of_course? {τ : Type} {world' : World τ} {t planned : τ} {handler : Handler σ}
    {course : Course σ} {planning acting : List Exchange}
    {renditions : List (Association × Rendition)}
    (h : course? handler request composite s = some course)
    (hplan : (plan .standard request).Succeeds world' composite t planning renditions composite
      planned) (hlog : course.planning ++ course.acting = planning ++ acting) :
    renditions = course.renditions ∧ planning = course.planning ∧ acting = course.acting := by
  obtain ⟨hresult, hplanning⟩ :=
    Program.Reaches.unique_of_append (succeeds_of_course? h).1 hplan hlog
  refine ⟨(Except.ok.inj (Prod.mk.inj hresult).1).symm, hplanning.symm, ?_⟩
  rw [hplanning] at hlog
  exact (List.append_cancel_left hlog).symm

end Composition

end ResourceComposition
