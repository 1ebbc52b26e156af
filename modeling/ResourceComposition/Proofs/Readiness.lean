import ResourceComposition.Composition.Reconciliation
import ResourceComposition.Proofs.Filing

/-!
# What a composite that is ready stands for

A reconciliation that succeeds sets the `Ready` condition of the composite, or leaves it if it says
so already. It is true exactly if all resources that were applied passed the checks of their
templates. A template that could not be rendered takes no part in this: it is reported by an event,
and the composite may be ready all the same.

`Composition.Account` goes through such a pass from its first call to its last. Between the
composition and the report on readiness no status is written, so what the report says is all that
the pass says.
-/

namespace ResourceComposition

/-- A call leaves the status of all that is stored alone: it reads, creates, tells of an event, or
replaces an object by one that has no status. -/
def Call.SparesStatus : Call → Prop
  | .get _ | .create _ _ | .publish _ _ _ => True
  | .update object => object.encode.field? "status" = none
  | .patch _ _ | .patchStatus _ _ | .delete _ => False

namespace Composition

open Composing

variable {σ : Type} {world : World σ} {s last : σ} {log : List Exchange}
  {composite composed : Resource} {now : Instant} {o : Outcome}

/-! ### The condition -/

theorem readyCondition_type (o : Outcome) : (readyCondition o).type = Condition.ready := by
  unfold readyCondition
  split <;> rfl

theorem readyCondition_valid (o : Outcome) : (readyCondition o).Valid := by
  unfold readyCondition
  split <;> simp [Condition.Valid, Condition.available, Condition.creating]

/-- The condition is true if no resource is pending. -/
theorem readyCondition_status (o : Outcome) :
    (readyCondition o).status = .true ↔ ∀ entry ∈ o.composed, entry.ready = true := by
  unfold readyCondition
  split
  · next hnone => simpa [Condition.available, List.filter_eq_nil_iff] using hnone
  · next pending hsome =>
    simp only [Condition.creating, reduceCtorEq, false_iff]
    intro hall
    apply hsome
    simpa [List.filter_eq_nil_iff] using hall

/-- What a pass says of a composite in the end: its status is written with the condition, or it is
left as it was. -/
def Reports (composed : Resource) (log : List Exchange) (reported : Resource) : Prop :=
  log = [] ∧ reported = composed ∨
    ∃ stored, log = [⟨.patchStatus reported
      (.object [("status", (reported.body.get? "status").getD .null)]), .ok stored⟩]

/-- A report that succeeds sets the condition that the outcome calls for, and writes the status if
that says anything new. -/
theorem succeeds_reportReadiness (h : (reportReadiness now composed o).Succeeds world s log () last) :
    ∃ changed reported, composed.setCondition now (readyCondition o) = .ok (changed, reported) ∧
      (changed = false ∧ log = [] ∧ last = s ∨ changed = true ∧ ∃ stored,
        log = [⟨.patchStatus reported
          (.object [("status", (reported.body.get? "status").getD .null)]), .ok stored⟩] ∧
        world (.patchStatus reported
          (.object [("status", (reported.body.get? "status").getD .null)])) s (.ok stored) last) := by
  obtain ⟨⟨changed, reported⟩, _, _, _, rfl, hset, hrest⟩ := Attempt.succeeds_bind.mp h
  obtain ⟨hcondition, rfl, rfl⟩ := Attempt.succeeds_ofExcept.mp hset
  refine ⟨changed, reported, Except.mapError_eq_ok.mp hcondition, ?_⟩
  cases changed with
  | false =>
    obtain ⟨-, rfl, rfl⟩ := Attempt.succeeds_pure.mp hrest
    exact .inl ⟨rfl, rfl, rfl⟩
  | true =>
    obtain ⟨stored, _, _, _, rfl, hwrite, hend⟩ := Attempt.succeeds_bind.mp hrest
    obtain ⟨hpatch, rfl⟩ := Program.reaches_ask.mp (Attempt.succeeds_asking.mp hwrite)
    obtain ⟨-, rfl, rfl⟩ := Attempt.succeeds_pure.mp hend
    exact .inr ⟨rfl, stored, rfl, hpatch⟩

theorem reportReadiness_reports (hnow : now.Valid)
    (h : (reportReadiness now composed o).Succeeds world s log () last) :
    ∃ reported, Reports composed log reported ∧
      (reported.isReady = true ↔ ∀ entry ∈ o.composed, entry.ready = true) := by
  obtain ⟨changed, reported, hcondition, hwritten⟩ := succeeds_reportReadiness h
  refine ⟨reported, ?_, ?_⟩
  · obtain ⟨rfl, rfl, -⟩ | ⟨-, stored, rfl, -⟩ := hwritten
    · exact .inl ⟨rfl, Resource.eq_of_setCondition hcondition⟩
    · exact .inr ⟨stored, rfl⟩
  · rw [Resource.isReady_setCondition hnow (readyCondition_valid o) (readyCondition_type o)
      hcondition, readyCondition_status]

/-! ### The events -/

/-- The exchange that publishes an event on what a reference names. -/
def publishing (about : Reference) (event : Event) : Exchange :=
  ⟨.publish about event Event.composeAction, ()⟩

theorem publishAll_publishes {about : Reference} {events : List Event}
    (h : Program.Reaches world (publishAll about events) s log (.done ()) last) :
    log = events.map (publishing about) := by
  induction events generalizing s log with
  | nil => exact (Program.reaches_done.mp h).2.1
  | cons event rest ih =>
    obtain ⟨⟨⟩, middle, early, late, rfl, hfirst, hrest⟩ := Program.reaches_bind.mp h
    obtain ⟨-, rfl⟩ := Program.reaches_ask.mp hfirst
    rw [ih hrest]
    rfl

/-- The report on a template that was skipped is among the warnings. -/
theorem mem_warnings {renditions : List (Association × Rendition)} {a : Association}
    {cause : CompositionError} {place : Nat} (start : Nat)
    (h : renditions[place]? = some (a, .skipped cause)) :
    warning (a.template.displayName (start + place)) cause ∈ warnings start renditions := by
  induction renditions generalizing start place with
  | nil => simp at h
  | cons first rest ih =>
    cases place with
    | zero =>
      obtain rfl : first = (a, .skipped cause) := by simpa using h
      simp [warnings]
    | succ place =>
      have hrest := ih (start + 1) (by simpa using h)
      rw [Nat.add_right_comm, Nat.add_assoc] at hrest
      obtain ⟨a', _ | cause'⟩ := first
      · exact hrest
      · exact List.mem_cons_of_mem _ hrest

/-! ### Publishing leaves every status alone -/

variable {defaultNamespace : Option String}

theorem publishAll_always {allowed : Call → Prop} {about : Reference}
    (h : ∀ event, allowed (.publish about event Event.composeAction)) (events : List Event) :
    (publishAll about events).Always allowed := by
  induction events with
  | nil => trivial
  | cons event rest ih => exact Program.Always.bind (Program.always_ask (h event)) fun _ => ih

/-- A secret of connection details has no status. -/
theorem status_holding (composite : Resource) (reference : Reference) (details : ConnectionDetails)
    (metadata : Metadata) :
    ({ Secret.holding composite reference details with metadata } : Resource).encode.field? "status" =
      none := by
  refine (Resource.field?_encode_of_sorted ?_ (by simp [Resource.headerNames])).trans ?_
  · simp only [Secret.holding, Dict.sorted_cons, List.forall_mem_cons]
    decide
  · simp [Secret.holding, Dict.get?_cons]

theorem publishSecret_always (composite : Resource) (details : ConnectionDetails) :
    (composite.publishDetails defaultNamespace details).Always Call.SparesStatus := by
  refine (Attempt.always_ofExcept _).bind ?_
  rintro (_ | secret)
  · exact Attempt.always_pure _
  · refine (Attempt.always_asking (Program.always_ask trivial)).bind ?_
    rintro (_ | existing)
    · exact (Attempt.always_asking (Program.always_ask trivial)).bind fun _ => Attempt.always_pure _
    · dsimp only
      split
      · exact Attempt.always_pure _
      · exact (Attempt.always_asking (Program.always_ask (status_holding ..))).bind fun _ =>
          Attempt.always_pure _

theorem publishDetails_always (composite : Resource) (o : Outcome) :
    (publishDetails defaultNamespace composite o).Always Call.SparesStatus := by
  refine Program.Always.bind (publishSecret_always composite o.connectionDetails) ?_
  rintro (e | _ | _)
  · exact Program.Always.bind (Program.always_ask trivial) fun _ => trivial
  · trivial
  · exact Program.Always.bind (Program.always_ask trivial) fun _ => trivial

/-! ### The whole pass -/

/-- What a pass that succeeds did: it went through the course of a composition, published events and
connection details, and reported on the readiness of the composite. -/
structure Account (world : World σ) (defaultNamespace : Option String) (now : Instant)
    (request : CompositionRequest) (composite : Resource) (s : σ) (course : Course σ)
    (events details readiness : List Exchange) (reported : Resource) (last : σ) : Prop where
  /-- The plan was made. -/
  planned : (plan .standard request).Succeeds world composite s course.planning course.renditions
    composite course.planned
  /-- The plan was carried out. -/
  carriedOut : (carryOut .standard request.environment course.renditions).Succeeds world composite
    course.planned course.acting course.outcome course.composite course.last
  /-- There is a rendition for each template of the revision, in order. -/
  templates : request.revision.inlinedTemplates = .ok (course.renditions.map (·.1.template))
  /-- What was rendered was applied and checked. -/
  settled : List.Forall₂ (Settled course.acting) (renderedOnly course.renditions)
    course.outcome.composed
  /-- The events are the warnings of the templates that were skipped, and no others. -/
  told : events = (warnings 0 course.renditions).map (publishing composite.reference)
  /-- Of each template that was skipped an event tells. -/
  warned : ∀ (place : Nat) (a : Association) (cause : CompositionError),
    course.renditions[place]? = some (a, .skipped cause) →
      publishing composite.reference (warning (a.template.displayName place) cause) ∈ events
  /-- The connection details were published, and then readiness was reported. -/
  report : ∃ announced delivered,
    Program.Reaches world (publishAll composite.reference course.outcome.events) course.last events
      (.done ()) announced ∧
    (publishDetails defaultNamespace course.composite course.outcome).Succeeds world announced details
      () delivered ∧
    (reportReadiness now course.composite course.outcome).Succeeds world delivered readiness () last
  /-- Until then no status was written. -/
  quiet : ∀ exchange ∈ events ++ details, exchange.request.SparesStatus
  /-- The report writes the status, or leaves the composite as it is. -/
  reports : Reports course.composite readiness reported
  /-- It says that the composite is ready exactly if all resources are that were composed. -/
  ready : reported.isReady = true ↔ ∀ entry ∈ course.outcome.composed, entry.ready = true

/-- A reconciliation that succeeds makes a composite ready, or leaves it so, exactly if all
resources that were composed are ready. Each template was either rendered, and then its resource was
applied and its checks were made, or it was skipped, and then an event tells of it. -/
theorem reconcile_ready_iff {request : CompositionRequest} {requeue : Nat} (hnow : now.Valid)
    (h : (reconcile .standard defaultNamespace now request composite).Succeeds world s log requeue
      last) :
    ∃ (course : Course σ) (events details readiness : List Exchange) (reported : Resource),
      log = course.planning ++ (course.acting ++ (events ++ (details ++ readiness))) ∧
      requeue = (if course.outcome.allReady then readyRequeue else notReadyRequeue) ∧
      Account world defaultNamespace now request composite s course events details readiness reported
        last := by
  obtain ⟨⟨e | outcome, composed⟩, middle, composing, rest, rfl, hcompose, hrest⟩ :=
    Program.reaches_bind.mp h
  · obtain ⟨_, _, _, _, _, -, habsurd⟩ := Program.reaches_bind.mp hrest
    obtain ⟨habsurd, -⟩ := Program.reaches_done.mp habsurd
    cases habsurd
  · have hcomposed : (compose .standard request).Succeeds world composite s composing outcome composed
        middle := hcompose
    obtain ⟨renditions, planning, acting, planned, rfl, hplan, hcarry⟩ :=
      compose_succeeds.mp hcomposed
    obtain ⟨-, hplanned⟩ := plan_planned hplan
    obtain ⟨hsettled, hevents⟩ := carryOut_settled hcarry
    obtain ⟨⟨⟩, announced, events, late, rfl, hpublish, hreport⟩ := Program.reaches_bind.mp hrest
    obtain ⟨⟨⟩, delivered, details, ending, rfl, hdetails, hending⟩ :=
      Attempt.succeeds_bind.mp hreport
    obtain ⟨⟨⟩, _, readiness, _, rfl, hready, hend⟩ := Attempt.succeeds_bind.mp hending
    obtain ⟨hrequeue, rfl, rfl⟩ := Attempt.succeeds_pure.mp hend
    obtain ⟨reported, hreports, hiff⟩ := reportReadiness_reports hnow hready
    have hpublished : events = (warnings 0 renditions).map (publishing composite.reference) := by
      rw [publishAll_publishes hpublish, hevents]
    have hquiet : ∀ exchange ∈ events, exchange.request.SparesStatus :=
      (publishAll_always (fun _ => trivial) outcome.events).of_reaches hpublish
    refine ⟨⟨planning, renditions, planned, acting, outcome, composed, middle⟩, events, details,
      readiness, reported, by simp, hrequeue.symm, {
        planned := hplan
        carriedOut := hcarry
        templates := hplanned.templates
        settled := hsettled
        told := hpublished
        warned := ?_
        report := ⟨announced, delivered, hpublish, hdetails, hready⟩
        quiet := List.forall_mem_append.mpr
          ⟨hquiet, (publishDetails_always composed outcome).of_reaches hdetails⟩
        reports := hreports
        ready := hiff }⟩
    intro place a cause hskipped
    have hmem := mem_warnings 0 hskipped
    rw [Nat.zero_add] at hmem
    rw [hpublished]
    exact List.mem_map_of_mem hmem

/-! ### A hermit without a lid -/

/-- A composite on its own. -/
def hermit : Resource where
  typeMeta := some ⟨"v1", "Hermit"⟩
  metadata := {
    name := some "hermit", uid := some "u", labels := some [("tessera.dev/composite", "hermit")] }
  body := [("spec", .object [("size", .int 3)])]

/-- A recipe of a box that is always ready and a lid that cannot be rendered. -/
def lidless : Revision where
  templates := [
    { name := some "box"
      base := .object [("apiVersion", .string "v1"), ("kind", .string "Box")]
      readinessChecks := [{ type := .none }] },
    { name := some "lid" }]

/-- The time of the pass. -/
def dawn : Instant := ⟨2024, 1, 1, 6, 0, 0, 0⟩

theorem dawn_valid : dawn.Valid :=
  ⟨by decide, by decide, by decide, by decide, by decide, by decide, by decide⟩

/-- A resource of a template was created or patched. -/
def writesFor (name : String) : Exchange → Bool
  | ⟨.create r false, _⟩ => r.templateName? = some name
  | ⟨.patch r _, _⟩ => r.templateName? = some name
  | _ => false

/-- A pass ended with the hermit stored as ready, and nothing was written for the lid. -/
def readyLidless (ending : Except CompositionError Nat) (last : Memory) (log : List Exchange) : Bool :=
  match ending with
  | .ok requeue => decide (requeue = readyRequeue) &&
      (((last.lookup? hermit.key).bind fun form => (Resource.ofJson form).toOption).any (·.isReady) &&
        log.all fun exchange => !writesFor "lid" exchange)
  | .error _ => false

/-- The pass over the hermit succeeds: in the end the stored hermit is ready, and no resource was
applied for the lid. -/
theorem hermit_pass : ∃ log last form stored,
    (reconcile .standard none dawn { revision := lidless } hermit).Succeeds Memory.handler.world
      (({} : Memory).insert hermit) log readyRequeue last ∧
    last.lookup? hermit.key = some form ∧ Resource.ofJson form = .ok stored ∧
    stored.isReady = true ∧ ∀ exchange ∈ log, writesFor "lid" exchange = false := by
  obtain ⟨log, _ | requeue, last, hreaches, hcheck⟩ := Program.reaches_of_run Memory.handler
    (reconcile .standard none dawn { revision := lidless } hermit).run (({} : Memory).insert hermit)
    readyLidless (by decide +kernel)
  · cases hcheck
  · simp only [readyLidless, Bool.and_eq_true, decide_eq_true_eq] at hcheck
    obtain ⟨rfl, hready, hwrites⟩ := hcheck
    obtain ⟨stored, hstored, hready⟩ := (Option.any_eq_true ..).mp hready
    obtain ⟨form, hform, hread⟩ := Option.bind_eq_some_iff.mp hstored
    refine ⟨log, last, form, stored, hreaches, hform, ?_, hready, by simpa using hwrites⟩
    cases hjson : Resource.ofJson form <;> simp_all [Except.toOption]

/-- The course of a composition rendered a box that is ready, and skipped a lid. -/
def skipsLid (course : Course Memory) : Bool :=
  match course.renditions with
  | [(a, .rendered _), (b, .skipped _)] =>
    decide (a.template.name = some "box" ∧ b.template.name = some "lid") && course.outcome.allReady
  | _ => false

/-- The pass over the hermit renders the box, skips the lid with an event that tells of it, and
reports that the hermit is ready. -/
theorem hermit_ready_iff : dawn.Valid ∧
    ∃ log last course a r b cause events details readiness reported,
      (reconcile .standard none dawn { revision := lidless } hermit).Succeeds Memory.handler.world
        (({} : Memory).insert hermit) log readyRequeue last ∧
      log = course.planning ++ (course.acting ++ (events ++ (details ++ readiness))) ∧
      Account Memory.handler.world none dawn { revision := lidless } hermit
        (({} : Memory).insert hermit) course events details readiness reported last ∧
      course.renditions = [(a, .rendered r), (b, .skipped cause)] ∧
      a.template.name = some "box" ∧ b.template.name = some "lid" ∧
      publishing hermit.reference (warning (b.template.displayName 1) cause) ∈ events ∧
      reported.isReady = true := by
  obtain ⟨log, last, -, -, hsucceeds, -⟩ := hermit_pass
  obtain ⟨course, events, details, readiness, reported, hlog, -, haccount⟩ :=
    reconcile_ready_iff dawn_valid hsucceeds
  have hrun : (course? Memory.handler { revision := lidless } hermit
      (({} : Memory).insert hermit)).any skipsLid = true := by
    decide +kernel
  rw [course?_of_succeeds haccount.planned haccount.carriedOut] at hrun
  simp only [Option.any_some, skipsLid] at hrun
  split at hrun
  · next a r b cause hrenditions =>
    obtain ⟨hnames, hready⟩ := Bool.and_eq_true_iff.mp hrun
    obtain ⟨hbox, hlid⟩ := of_decide_eq_true hnames
    refine ⟨dawn_valid, log, last, course, a, r, b, cause, events, details, readiness, reported,
      hsucceeds, hlog, haccount, hrenditions, hbox, hlid, ?_, ?_⟩
    · exact haccount.warned 1 b cause (by rw [hrenditions]; rfl)
    · exact haccount.ready.mpr (by simpa [Outcome.allReady] using hready)
  · cases hrun

/-- The hermit is ready without its lid: there is a template of which no resource was applied. -/
theorem ready_without_lid : ∃ log last form stored,
    (reconcile .standard none dawn { revision := lidless } hermit).Succeeds Memory.handler.world
      (({} : Memory).insert hermit) log readyRequeue last ∧
    last.lookup? hermit.key = some form ∧ Resource.ofJson form = .ok stored ∧
    stored.isReady = true ∧
    ∃ t ∈ lidless.templates, ∀ r object, Applied log r object → r.templateName? ≠ t.name := by
  obtain ⟨log, last, form, stored, hsucceeds, hform, hstored, hready, hwrites⟩ := hermit_pass
  refine ⟨log, last, form, stored, hsucceeds, hform, hstored, hready, { name := some "lid" },
    by simp [lidless], ?_⟩
  rintro r object (hcreate | hpatch) hname
  · have := hwrites _ hcreate
    simp [writesFor, hname] at this
  · have := hwrites _ hpatch
    simp [writesFor, hname] at this

end Composition

end ResourceComposition
