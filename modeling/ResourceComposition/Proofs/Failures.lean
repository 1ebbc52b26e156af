import ResourceComposition.Proofs.Course
import ResourceComposition.Store.Faults
import ResourceComposition.Store.Memory

/-!
# How a composition fails

An error that ends a composition is wrapped in the stage in which it arose, once: what the steps of a
composition report are causes, which know nothing of stages, and the stage is put around them where
the step is called. `Attempt.FailsPlainly` says the one and `Composing.FailsIn` the other, whatever
the world replies.

The stages of planning come before those of carrying out. So an error of a stage of planning is the
error of the plan: the composite is as it was, nothing was stored, and what was deleted were orphans.
-/

namespace ResourceComposition

/-! ### What programs come to -/

namespace Program

variable {σ α β : Type} {wanted : α → Prop}

/-- Whatever the replies are, what a program comes to is wanted. -/
def Yields (wanted : α → Prop) : Program α → Prop
  | .done result => wanted result
  | .call _ resume => ∀ reply, (resume reply).Yields wanted

theorem yields_true (p : Program α) : p.Yields fun _ => True := by
  induction p with
  | done result => trivial
  | call request resume ih => exact ih

theorem Yields.bind {first : β → Prop} {p : Program β} {f : β → Program α} (hp : p.Yields first)
    (hf : ∀ b, first b → (f b).Yields wanted) : (p.bind f).Yields wanted := by
  induction p with
  | done b => exact hf b hp
  | call request resume ih => exact fun reply => ih reply (hp reply)

theorem Yields.of_reaches {world : World σ} {p : Program α} {s last : σ} {log : List Exchange}
    {a : α} (hp : p.Yields wanted) (h : Reaches world p s log (.done a) last) : wanted a := by
  induction p generalizing s log with
  | done result =>
    obtain ⟨rfl, -⟩ := reaches_done.mp h
    exact hp
  | call request resume ih =>
    obtain ⟨reply, after, more, -, -, hrest⟩ := reaches_call.mp h
    exact ih reply (hp reply) hrest

/-- Calls that are allowed whenever they are made. -/
theorem Always.keeps {world : World σ} {always : Call → Prop} {allowed : Call → σ → Prop}
    {p : Program α} {s : σ} (hp : p.Always always)
    (h : ∀ request s, always request → allowed request s) :
    p.Keeps world allowed (fun _ _ => True) s := by
  induction p generalizing s with
  | done result => trivial
  | call request resume ih => exact ⟨h request s hp.1, fun reply after _ => ih reply (hp.2 reply)⟩

/-- Besides what it keeps to, a program makes such calls only as it always makes. -/
theorem Keeps.and_always {world : World σ} {always : Call → Prop} {allowed : Call → σ → Prop}
    {wanted : α → σ → Prop} {p : Program α} {s : σ} (hp : p.Keeps world allowed wanted s)
    (h : p.Always always) :
    p.Keeps world (fun request s => always request ∧ allowed request s) wanted s := by
  induction p generalizing s with
  | done result => exact hp
  | call request resume ih =>
    exact ⟨⟨h.1, hp.1⟩, fun reply after hr => ih reply (hp.2 reply after hr) (h.2 reply)⟩

/-- What a program keeps to in the recording world holds of every record: each call was allowed by
the record before it. -/
theorem Keeps.of_reaches_recording {world : World σ} {allowed : Call → List Exchange → Prop}
    {wanted : α → List Exchange → Prop} {p q : Program α} {s last : σ} {start log : List Exchange}
    (hp : p.Keeps .recording allowed wanted start) (h : Reaches world p s log q last) :
    ∀ before exchange after, log = before ++ exchange :: after →
      allowed exchange.request (start ++ before) := by
  induction h generalizing start with
  | here => simp
  | @call request resume reply s after log q last _ _ ih =>
    intro before exchange more hlog
    cases before with
    | nil =>
      obtain ⟨rfl, -⟩ := List.cons.inj hlog
      simpa using hp.1
    | cons first before =>
      obtain ⟨rfl, hrest⟩ := List.cons.inj hlog
      have hallowed := ih (hp.2 _ _ rfl) before exchange more hrest
      rwa [List.append_assoc] at hallowed

end Program

open Program

/-! ### Coming to an end in an error -/

namespace Attempt

variable {σ α β : Type} {world : World σ} {s last : σ} {log : List Exchange} {e : CompositionError}

/-- An attempt comes to an end in an error. -/
def Fails (world : World σ) (p : Attempt α) (s : σ) (log : List Exchange) (e : CompositionError)
    (last : σ) : Prop := Reaches world p.run s log (.done (.error e)) last

theorem fails_ofExcept {result : Except CompositionError α} :
    (ofExcept result).Fails world s log e last ↔ result = .error e ∧ log = [] ∧ s = last :=
  reaches_done

/-- One attempt after another fails if the first does, or else the second. -/
theorem fails_bind {p : Attempt α} {f : α → Attempt β} :
    (p >>= f).Fails world s log e last ↔ p.Fails world s log e last ∨
      ∃ a middle before after, log = before ++ after ∧ p.Succeeds world s before a middle ∧
        (f a).Fails world middle after e last := by
  refine reaches_bind.trans ⟨?_, ?_⟩
  · rintro ⟨e' | a, middle, before, after, rfl, hfirst, hsecond⟩
    · obtain ⟨hend, rfl, rfl⟩ := reaches_done.mp hsecond
      obtain rfl := Except.error.inj hend
      exact .inl (by rwa [List.append_nil])
    · exact .inr ⟨a, middle, before, after, rfl, hfirst, hsecond⟩
  · rintro (h | ⟨a, middle, before, after, rfl, hfirst, hsecond⟩)
    · exact ⟨.error e, last, log, [], by simp, h, reaches_done.mpr ⟨rfl, rfl, rfl⟩⟩
    · exact ⟨.ok a, middle, before, after, rfl, hfirst, hsecond⟩

end Attempt

namespace Composing

variable {σ α β : Type} {world : World σ} {composite composite' : Resource} {s last : σ}
  {log : List Exchange} {e : CompositionError}

/-- A step comes to an end in an error, and leaves the composite as it is then. -/
def Fails (world : World σ) (p : Composing α) (composite : Resource) (s : σ) (log : List Exchange)
    (e : CompositionError) (composite' : Resource) (last : σ) : Prop :=
  Reaches world (p.run composite) s log (.done (.error e, composite')) last

/-- One step after another fails if the first does, or else the second. -/
theorem fails_bind {p : Composing α} {f : α → Composing β} :
    (p >>= f).Fails world composite s log e composite' last ↔
      p.Fails world composite s log e composite' last ∨
      ∃ a middle composite₁ before after, log = before ++ after ∧
        p.Succeeds world composite s before a composite₁ middle ∧
        (f a).Fails world composite₁ middle after e composite' last := by
  refine reaches_bind.trans ⟨?_, ?_⟩
  · rintro ⟨⟨e' | a, composite₁⟩, middle, before, after, rfl, hfirst, hsecond⟩
    · obtain ⟨hend, rfl, rfl⟩ := reaches_done.mp hsecond
      obtain ⟨he, rfl⟩ := Prod.mk.inj hend
      obtain rfl := Except.error.inj he
      exact .inl (by rwa [List.append_nil])
    · exact .inr ⟨a, middle, composite₁, before, after, rfl, hfirst, hsecond⟩
  · rintro (h | ⟨a, middle, composite₁, before, after, rfl, hfirst, hsecond⟩)
    · exact ⟨(.error e, composite'), last, log, [], by simp, h, reaches_done.mpr ⟨rfl, rfl, rfl⟩⟩
    · exact ⟨(.ok a, composite₁), middle, before, after, rfl, hfirst, hsecond⟩

theorem fails_during {stage : Stage} {p : Attempt α} :
    (during stage p).Fails world composite s log e composite' last ↔
      composite' = composite ∧ ∃ cause, e = .inStage stage cause ∧ p.Fails world s log cause last := by
  refine reaches_bind.trans ⟨?_, ?_⟩
  · rintro ⟨cause | a, middle, before, after, rfl, hfirst, hsecond⟩
    · obtain ⟨hend, rfl, rfl⟩ := reaches_done.mp hsecond
      obtain ⟨he, rfl⟩ := Prod.mk.inj hend
      exact ⟨rfl, cause, (Except.error.inj he).symm, by rwa [List.append_nil]⟩
    · obtain ⟨hend, -⟩ := reaches_done.mp hsecond
      cases (Prod.mk.inj hend).1
  · rintro ⟨rfl, cause, rfl, h⟩
    exact ⟨.error cause, last, log, [], by simp, h, reaches_done.mpr ⟨rfl, rfl, rfl⟩⟩

end Composing

/-! ### Causes -/

/-- The error of a result, if there is one, is a cause without a stage. -/
def PlainlyFailing {α : Type} (result : Except CompositionError α) : Prop :=
  ∀ e, result = .error e → e.stage? = none

namespace PlainlyFailing

variable {α β ε : Type} {result : Except CompositionError α}

theorem ok (a : α) : PlainlyFailing (.ok a) := nofun

theorem error {e : CompositionError} (h : e.stage? = none) :
    PlainlyFailing (.error e : Except CompositionError α) := by
  rintro e' ⟨⟩
  exact h

theorem mapError {f : ε → CompositionError} (h : ∀ e, (f e).stage? = none) (result : Except ε α) :
    PlainlyFailing (result.mapError f) := by
  cases result with
  | error e => exact error (h e)
  | ok a => exact ok a

theorem bind {f : α → Except CompositionError β} (h : PlainlyFailing result)
    (hf : ∀ a, PlainlyFailing (f a)) : PlainlyFailing (result >>= f) := by
  cases result with
  | error e => exact error (h e rfl)
  | ok a => exact hf a

end PlainlyFailing

namespace Attempt

variable {α β : Type}

/-- Whatever the replies are, the error of an attempt is a cause without a stage. -/
def FailsPlainly (p : Attempt α) : Prop := p.run.Yields PlainlyFailing

theorem failsPlainly_pure (a : α) : (pure a : Attempt α).FailsPlainly := .ok a

theorem failsPlainly_throw {e : CompositionError} (h : e.stage? = none) :
    (throw e : Attempt α).FailsPlainly := .error h

theorem failsPlainly_ofExcept {result : Except CompositionError α} (h : PlainlyFailing result) :
    (ofExcept result).FailsPlainly := h

theorem FailsPlainly.bind {p : Attempt β} {f : β → Attempt α} (hp : p.FailsPlainly)
    (hf : ∀ b, (f b).FailsPlainly) : (p >>= f).FailsPlainly := by
  refine Program.Yields.bind hp ?_
  rintro (e | b) h
  · exact .error (h e rfl)
  · exact hf b

theorem failsPlainly_asking {p : Program (Except Error α)} {failure : Error → CompositionError}
    (h : ∀ e, (failure e).stage? = none) : (asking p failure).FailsPlainly := by
  exact Program.Yields.bind p.yields_true fun reply _ => .mapError h reply

end Attempt

open Attempt

/-! ### What the steps report -/

theorem Template.expandPatch_plain (sets : List PatchSet) (displayName : String) (p : Patch) :
    PlainlyFailing (expandPatch sets displayName p) := by
  unfold expandPatch
  split
  · split
    · exact .error rfl
    · split
      · exact .error rfl
      · exact .ok _
  · exact .ok _

theorem Template.expandPatches_plain (sets : List PatchSet) (displayName : String)
    (patches : List Patch) : PlainlyFailing (expandPatches sets displayName patches) := by
  induction patches with
  | nil => exact .ok _
  | cons p rest ih => exact (expandPatch_plain sets displayName p).bind fun _ => ih.bind fun _ => .ok _

theorem Template.inlinedFrom_plain (sets : List PatchSet) (place : Nat) (templates : List Template) :
    PlainlyFailing (inlinedFrom sets place templates) := by
  induction templates generalizing place with
  | nil => exact .ok _
  | cons t rest ih =>
    exact ((expandPatches_plain sets _ t.patches).bind fun _ => .ok _).bind fun _ =>
      (ih (place + 1)).bind fun _ => .ok _

theorem Revision.inlinedTemplates_plain (r : Revision) : PlainlyFailing r.inlinedTemplates := by
  unfold inlinedTemplates
  split
  · exact .error rfl
  · exact Template.inlinedFrom_plain _ _ _

namespace Association

theorem heldReferences_failsPlainly (composite : Resource) :
    (heldReferences composite).FailsPlainly :=
  failsPlainly_ofExcept (.mapError (fun _ => rfl) _)

theorem turn_failsPlainly (composite : Resource) (reference : Reference) (bound : List Association) :
    (turn composite reference bound).FailsPlainly := by
  refine (failsPlainly_asking fun _ => rfl).bind ?_
  rintro (_ | composed)
  · exact failsPlainly_pure _
  · dsimp only
    split
    · exact failsPlainly_pure _
    · split
      · exact failsPlainly_pure _
      · split
        · exact (failsPlainly_asking fun _ => rfl).bind fun _ => failsPlainly_pure _
        · exact failsPlainly_pure _

theorem collect_failsPlainly (composite : Resource) (fallback bound : List Association)
    (references : List Reference) : (collect composite fallback references bound).FailsPlainly := by
  induction references generalizing bound with
  | nil => exact failsPlainly_pure _
  | cons reference rest ih =>
    rw [collect_cons]
    refine (turn_failsPlainly composite reference bound).bind ?_
    rintro (_ | more)
    · exact failsPlainly_pure _
    · exact ih more

theorem byName_failsPlainly (composite : Resource) (templates : List Template) :
    (byName composite templates).FailsPlainly := by
  unfold byName
  split
  · exact (heldReferences_failsPlainly composite).bind fun _ => failsPlainly_pure _
  · exact (heldReferences_failsPlainly composite).bind fun _ => collect_failsPlainly _ _ _ _

end Association

namespace Patch

variable (source? : PatchType → Option Json)

theorem copyField_plain (p : Patch) (place : Nat) (source target : Json) :
    PlainlyFailing (p.copyField place source target) := by
  unfold copyField
  split
  · exact .error rfl
  · split
    · exact .error rfl
    · exact .mapError (fun _ => rfl) _
    · split
      · exact .error rfl
      · exact .ok _

theorem copyFields_plain (place : Nat) (patches : List Patch) (target : Json) :
    PlainlyFailing (copyFields source? place patches target) := by
  induction patches generalizing place target with
  | nil => exact .ok _
  | cons p rest ih =>
    rw [copyFields]
    split
    · exact (copyField_plain p place _ target).bind fun _ => ih _ _
    · exact ih _ _

theorem applyTo_plain (patches : List Patch) (r : Resource) :
    PlainlyFailing (applyTo source? patches r) := by
  unfold applyTo
  split
  · exact (copyFields_plain source? 0 patches r.encode).bind fun _ => .mapError (fun _ => rfl) _
  · exact .ok _

end Patch

namespace Template

variable (t : Template) (environment : Json) (composite before r : Resource)

theorem laidOver_plain : PlainlyFailing (t.laidOver before) := by
  unfold laidOver
  split
  · exact .mapError (fun _ => rfl) _
  · exact .error rfl

theorem adopt_plain : PlainlyFailing (adopt composite r) := by
  unfold adopt
  split
  · dsimp only
    split
    · exact .ok _
    · exact .error rfl
  · exact .ok _

theorem prepare_plain : PlainlyFailing (t.prepare environment composite before) := by
  refine (laidOver_plain t before).bind fun merged => ?_
  dsimp only
  split
  · exact .error rfl
  · split
    · exact .error rfl
    · exact (Patch.applyTo_plain _ t.patches _).bind fun patched => adopt_plain composite patched

theorem allocateName_failsPlainly : (allocateName r).FailsPlainly := by
  unfold allocateName
  split
  · refine (failsPlainly_asking fun _ => rfl).bind fun wouldBe => ?_
    split
    · exact failsPlainly_pure _
    · exact failsPlainly_throw rfl
  · exact failsPlainly_pure _

theorem render_failsPlainly : (t.render environment composite before).FailsPlainly :=
  (failsPlainly_ofExcept (prepare_plain t environment composite before)).bind
    allocateName_failsPlainly

end Template

namespace Resource

theorem apply_failsPlainly (r : Resource) : r.apply.FailsPlainly := by
  have hcreate : r.createStored.FailsPlainly := failsPlainly_asking fun _ => rfl
  unfold apply
  split
  · exact hcreate
  · refine (failsPlainly_asking fun _ => rfl).bind ?_
    rintro (_ | _)
    · exact hcreate
    · exact failsPlainly_asking fun _ => rfl

theorem fetchDetails_failsPlainly (r : Resource) : r.fetchDetails.FailsPlainly := by
  refine (failsPlainly_ofExcept (.mapError (fun _ => rfl) _)).bind ?_
  rintro (_ | secret)
  · exact failsPlainly_pure _
  · refine (failsPlainly_asking fun _ => rfl).bind ?_
    rintro (_ | stored)
    · exact failsPlainly_pure _
    · exact failsPlainly_ofExcept (.mapError (fun _ => rfl) _)

theorem extractFrom_plain (form : Json) (fetched found : ConnectionDetails) (place : Nat)
    (details : List ConnectionDetail) :
    PlainlyFailing (ConnectionDetail.extractFrom form fetched place details found) := by
  induction details generalizing place found with
  | nil => exact .ok _
  | cons d rest ih =>
    rw [ConnectionDetail.extractFrom]
    split
    · exact .error rfl
    · exact ih _ _

theorem allPassFrom_plain (r : Resource) (place : Nat) (checks : List ReadinessCheck) :
    PlainlyFailing (ReadinessCheck.allPassFrom r place checks) := by
  induction checks generalizing place with
  | nil => exact .ok _
  | cons c rest ih =>
    rw [ReadinessCheck.allPassFrom]
    split
    · exact .error rfl
    · exact .ok _
    · exact ih _

theorem readyBy_plain (r : Resource) (checks : List ReadinessCheck) :
    PlainlyFailing (r.readyBy checks) := by
  unfold readyBy
  split
  · exact .ok _
  · exact allPassFrom_plain r 0 checks

end Resource

/-! ### Stages -/

/-- The stages of planning that come after the patch sets were put in place. -/
def Stage.matching : List Stage := [.associate, .observe, .renderComposed]

/-- The stages of planning. -/
def Stage.planning : List Stage := .inline :: matching

/-- The stages of carrying out a plan. -/
def Stage.carryingOut : List Stage :=
  [.renderComposite, .apply, .fetchDetails, .extractDetails, .readiness, .update]

/-- An error is one of certain stages, put around a cause without a stage. -/
def CompositionError.StagedIn (stages : List Stage) (e : CompositionError) : Prop :=
  ∃ stage ∈ stages, ∃ cause : CompositionError, e = .inStage stage cause ∧ cause.stage? = none

namespace Composing

variable {α β : Type} {stages : List Stage}

/-- Whatever the replies are, the error of a step is one of certain stages around a cause. -/
def FailsIn (stages : List Stage) (p : Composing α) : Prop :=
  ∀ composite, (p.run composite).Yields fun ending =>
    ∀ e, ending.1 = .error e → e.StagedIn stages

/-- Whatever the replies are, a step leaves the composite as it is, also when it fails. -/
def Leaves (p : Composing α) : Prop :=
  ∀ composite, (p.run composite).Yields fun ending => ending.2 = composite

theorem FailsIn.of_fails {σ : Type} {world : World σ} {p : Composing α}
    {composite composite' : Resource} {s last : σ} {log : List Exchange} {e : CompositionError}
    (hp : p.FailsIn stages) (h : p.Fails world composite s log e composite' last) :
    e.StagedIn stages :=
  (hp composite).of_reaches h e rfl

theorem Leaves.of_fails {σ : Type} {world : World σ} {p : Composing α}
    {composite composite' : Resource} {s last : σ} {log : List Exchange} {e : CompositionError}
    (hp : p.Leaves) (h : p.Fails world composite s log e composite' last) :
    composite' = composite :=
  (hp composite).of_reaches h

theorem failsIn_pure (a : α) : (pure a : Composing α).FailsIn stages := fun _ => nofun

theorem failsIn_get : (get : Composing Resource).FailsIn stages := fun _ => nofun

theorem failsIn_setComposite (c : Resource) : (setComposite c).FailsIn stages := fun _ => nofun

theorem failsIn_throw {e : CompositionError} (h : e.StagedIn stages) :
    (throw e : Composing α).FailsIn stages := by
  rintro composite e' ⟨⟩
  exact h

theorem FailsIn.bind {p : Composing β} {f : β → Composing α} (hp : p.FailsIn stages)
    (hf : ∀ b, (f b).FailsIn stages) : (p >>= f).FailsIn stages := by
  refine fun composite => Program.Yields.bind (hp composite) ?_
  rintro ⟨e | b, composite₁⟩ h
  · rintro e' ⟨⟩
    exact h e rfl
  · exact hf b composite₁

theorem failsIn_during {stage : Stage} {p : Attempt α} (hstage : stage ∈ stages)
    (hp : p.FailsPlainly) : (during stage p).FailsIn stages := by
  refine fun composite => Program.Yields.bind hp ?_
  rintro (e | a) h
  · rintro e' ⟨⟩
    exact ⟨stage, hstage, e, rfl, h e rfl⟩
  · nofun

theorem leaves_pure (a : α) : (pure a : Composing α).Leaves := fun _ => rfl

theorem leaves_get : (get : Composing Resource).Leaves := fun _ => rfl

theorem leaves_throw (e : CompositionError) : (throw e : Composing α).Leaves := fun _ => rfl

theorem Leaves.bind {p : Composing β} {f : β → Composing α} (hp : p.Leaves)
    (hf : ∀ b, (f b).Leaves) : (p >>= f).Leaves := by
  refine fun composite => Program.Yields.bind (hp composite) ?_
  rintro ⟨e | b, composite₁⟩ rfl
  · rfl
  · exact hf b composite₁

theorem leaves_during (stage : Stage) (p : Attempt α) : (during stage p).Leaves := by
  intro composite
  refine Program.Yields.bind p.run.yields_true ?_
  rintro (e | a) - <;> rfl

/-- Whatever the replies are, a step that renders does not fail itself, and what it reports is a cause
without a stage. -/
def RendersPlainly (p : Composing (Except CompositionError α)) : Prop :=
  ∀ composite, (p.run composite).Yields fun ending =>
    ∃ result, ending.1 = .ok result ∧ PlainlyFailing result

theorem RendersPlainly.bind {p : Composing (Except CompositionError β)}
    {f : Except CompositionError β → Composing α} (hp : p.RendersPlainly)
    (hf : ∀ result, PlainlyFailing result → (f result).FailsIn stages) :
    (p >>= f).FailsIn stages := by
  refine fun composite => Program.Yields.bind (hp composite) ?_
  rintro ⟨_, composite₁⟩ ⟨result, rfl, h⟩
  exact hf result h composite₁

theorem rendersPlainly_composed (t : Template) (environment : Json) (before : Resource) :
    (rendering (Renderer.composed t environment) before).RendersPlainly := by
  intro composite
  rw [run_renderComposed]
  exact Program.Yields.bind (t.render_failsPlainly environment composite before) fun result h =>
    ⟨result, rfl, h⟩

theorem leaves_renderComposed (t : Template) (environment : Json) (before : Resource) :
    (rendering (Renderer.composed t environment) before).Leaves := by
  intro composite
  rw [run_renderComposed]
  exact Program.Yields.bind (t.render environment composite before).run.yields_true fun _ _ => rfl

theorem rendersPlainly_composite (t : Template) (environment : Json) (composed : Resource) :
    (rendering (Renderer.composite t environment) composed).RendersPlainly := by
  intro composite
  have hplain := Patch.applyTo_plain (Patch.compositeSource composed) t.patches composite
  have hends : ((Renderer.composite t environment).run ⟨composite, composed⟩).Yields fun ending =>
      PlainlyFailing ending.1 := by
    simp only [Renderer.composite, ExceptT.run, Patch.applyToComposite]
    cases hpatched : Patch.applyTo (Patch.compositeSource composed) t.patches composite with
    | error e => exact .error (hplain e hpatched)
    | ok c => exact .ok ()
  refine hends.bind ?_
  rintro ⟨_ | _, sides⟩ h
  · exact ⟨_, rfl, .error (h _ rfl)⟩
  · exact ⟨_, rfl, .ok _⟩

end Composing

/-! ### Compositions -/

namespace Composition

open Composing

variable {σ : Type} {world : World σ} {s last : σ} {log : List Exchange} {environment : Json}
  {request : CompositionRequest} {composite composite' : Resource} {e : CompositionError}

theorem observe_failsPlainly (reference : Option Reference) : (observe reference).FailsPlainly := by
  cases reference with
  | none => exact failsPlainly_pure _
  | some reference =>
    refine (failsPlainly_asking fun _ => rfl).bind ?_
    rintro (_ | composed) <;> exact failsPlainly_pure _

/-- Rendering one resource fails where it is observed, or because another controller has it. -/
theorem renderOne_fails (environment : Json) (a : Association) :
    (renderOne .standard environment a).FailsIn Stage.matching ∧
      (renderOne .standard environment a).Leaves := by
  constructor
  · refine (failsIn_during (by simp [Stage.matching]) (observe_failsPlainly a.reference)).bind
      fun before => (rendersPlainly_composed a.template environment before).bind ?_
    rintro (e | composed) hplain
    · dsimp only
      split
      · exact failsIn_throw ⟨_, by simp [Stage.matching], e, rfl, hplain e rfl⟩
      · exact failsIn_pure _
    · exact failsIn_pure _
  · refine (leaves_during _ _).bind fun before =>
      (leaves_renderComposed a.template environment before).bind ?_
    rintro (e | composed)
    · dsimp only
      split
      · exact leaves_throw _
      · exact leaves_pure _
    · exact leaves_pure _

theorem renderAll_fails (environment : Json) (associations : List Association) :
    (renderAll .standard environment associations).FailsIn Stage.matching ∧
      (renderAll .standard environment associations).Leaves := by
  induction associations with
  | nil => exact ⟨failsIn_pure _, leaves_pure _⟩
  | cons a rest ih =>
    obtain ⟨hfails, hleaves⟩ := renderOne_fails environment a
    exact ⟨hfails.bind fun _ => ih.1.bind fun _ => failsIn_pure _,
      hleaves.bind fun _ => ih.2.bind fun _ => leaves_pure _⟩

theorem applyComposite_failsIn : applyComposite.FailsIn Stage.carryingOut :=
  failsIn_get.bind fun composite =>
    (failsIn_during (by simp [Stage.carryingOut]) composite.apply_failsPlainly).bind
      failsIn_setComposite

theorem persistReferences_failsIn (references : List Reference) :
    (persistReferences references).FailsIn Stage.carryingOut :=
  failsIn_get.bind fun _ =>
    (failsIn_during (by simp [Stage.carryingOut])
      (failsPlainly_ofExcept (.mapError (fun _ => rfl) _))).bind fun referring =>
        (failsIn_setComposite referring).bind fun _ => applyComposite_failsIn

theorem settleOne_failsIn (made : Template × Resource) :
    (settleOne .standard environment made.1 made.2).FailsIn Stage.carryingOut := by
  refine (rendersPlainly_composite made.1 environment made.2).bind ?_
  rintro (e | composed) hplain
  · exact failsIn_throw ⟨_, by simp [Stage.carryingOut], e, rfl, hplain e rfl⟩
  · exact (failsIn_during (by simp [Stage.carryingOut]) composed.apply_failsPlainly).bind
      fun object => (failsIn_during (by simp [Stage.carryingOut])
        object.fetchDetails_failsPlainly).bind fun fetched =>
          (failsIn_during (by simp [Stage.carryingOut]) (failsPlainly_ofExcept
            (Resource.extractFrom_plain object.encode fetched [] 0 _))).bind fun details =>
            (failsIn_during (by simp [Stage.carryingOut]) (failsPlainly_ofExcept
              (object.readyBy_plain _))).bind fun ready => failsIn_pure _

theorem settleAll_failsIn (made : List (Template × Resource)) :
    (settleAll .standard environment made).FailsIn Stage.carryingOut := by
  induction made with
  | nil => exact failsIn_pure _
  | cons first rest ih =>
    exact (settleOne_failsIn first).bind fun _ => ih.bind fun _ => failsIn_pure _

theorem persistComposite_failsIn : persistComposite.FailsIn Stage.carryingOut := by
  refine failsIn_get.bind fun rendered => applyComposite_failsIn.bind fun _ => ?_
  split
  · exact failsIn_pure _
  · refine failsIn_get.bind fun stored => ?_
    split
    · exact failsIn_pure _
    · exact (failsIn_during (by simp [Stage.carryingOut]) (failsPlainly_asking fun _ => rfl)).bind
        failsIn_setComposite

theorem carryOut_failsIn (environment : Json)
    (renditions : List (Association × Rendition)) :
    (carryOut .standard environment renditions).FailsIn Stage.carryingOut :=
  (persistReferences_failsIn _).bind fun _ => (settleAll_failsIn _).bind fun _ =>
    persistComposite_failsIn.bind fun _ => failsIn_pure _

/-! ### Plans that fail -/

/-- A call of planning is allowed after the record of those before it: nothing is stored, and what is
deleted is an orphan that was read just before, through one of the references of the composite. -/
def Harmless (request : CompositionRequest) (composite : Resource) (call : Call)
    (log : List Exchange) : Prop :=
  call.Plans ∧ ∀ r, call = .delete r → ∃ templates, request.revision.inlinedTemplates = .ok templates ∧
    Association.Allowed composite templates (.delete r) log

theorem harmless_of_probes {call : Call} (h : call.Probes) (log : List Exchange) :
    Harmless request composite call log := by
  refine ⟨h.plans, ?_⟩
  rintro r rfl
  exact h.elim

theorem plan_harmless (request : CompositionRequest) (composite : Resource) :
    (plan .standard request).Keeps .recording (Harmless request composite) (fun _ _ _ => True)
      (fun _ => True) composite [] := by
  refine keeps_bind.mpr (keeps_during.mpr (Attempt.keeps_ofExcept.mpr ?_))
  cases hinlined : request.revision.inlinedTemplates with
  | error e => trivial
  | ok templates =>
    refine keeps_bind.mpr (keeps_get.mpr (keeps_bind.mpr (keeps_during.mpr ?_)))
    have hassociate : (Association.byName composite templates).Keeps .recording
        (Harmless request composite) (Association.Collects composite templates) (fun _ => True) [] := by
      refine ((Association.byName_keeps composite templates).and_always
        (Association.byName_always composite templates)).weaken fun call log h => ⟨h.1.plans, ?_⟩
      rintro r rfl
      exact ⟨templates, hinlined, h.2⟩
    refine hassociate.mono (fun associations log _ => ?_) fun _ => id
    refine Program.Keeps.mono ((renderAll_always associations composite).keeps fun call log h =>
      harmless_of_probes h log) ?_
    rintro ⟨_ | _, _⟩ _ - <;> trivial

/-- After the patch sets were put in place, planning matches the templates and renders them. -/
theorem matchAndRender_fails (environment : Json) (templates : List Template) :
    let rest : Composing (List (Association × Rendition)) := do
      let composite : Resource ← get
      let associations ← during .associate (Collaborators.standard.associate composite templates)
      renderAll .standard environment associations
    rest.FailsIn Stage.matching ∧ rest.Leaves := by
  constructor
  · exact failsIn_get.bind fun composite => (failsIn_during (by simp [Stage.matching])
      (Association.byName_failsPlainly composite templates)).bind fun associations =>
        (renderAll_fails environment associations).1
  · exact leaves_get.bind fun _ => (leaves_during _ _).bind fun associations =>
      (renderAll_fails environment associations).2

/-- A plan fails before any call because its patch sets cannot be put in place, or later and then in
another stage of planning. The composite stays as it is. -/
theorem plan_fails (h : (plan .standard request).Fails world composite s log e composite' last) :
    composite' = composite ∧ (e.StagedIn [.inline] ∧ log = [] ∨ e.StagedIn Stage.matching) := by
  obtain hinline | ⟨templates, middle, _, early, late, rfl, hinline, hrest⟩ := fails_bind.mp h
  · obtain ⟨rfl, cause, rfl, hcause⟩ := fails_during.mp hinline
    obtain ⟨hinlined, rfl, -⟩ := Attempt.fails_ofExcept.mp hcause
    refine ⟨rfl, .inl ⟨⟨.inline, by simp, cause, rfl, ?_⟩, rfl⟩⟩
    exact Revision.inlinedTemplates_plain _ cause hinlined
  · obtain ⟨rfl, -⟩ := succeeds_during.mp hinline
    obtain ⟨hfails, hleaves⟩ := matchAndRender_fails request.environment templates
    exact ⟨hleaves.of_fails hrest, .inr (hfails.of_fails hrest)⟩

/-- Early failures leave no trace. An error that ends a composition with the usual steps is one stage
around a cause without a stage, whatever the store does. If the patch sets cannot be put in place, no
call was made. If the composition ends in a stage of planning, the composite is the one it began with,
nothing was stored, and what was deleted were orphans, each of which was read just before through a
reference of the composite. -/
theorem compose_fails
    (h : (compose .standard request).Fails world composite s log e composite' last) :
    ∃ stage cause, e = .inStage stage cause ∧ cause.stage? = none ∧
      (stage = .inline → log = []) ∧
      (stage = .inline ∨ stage = .associate ∨ stage = .observe ∨ stage = .renderComposed →
        composite' = composite ∧ (∀ exchange ∈ log, exchange.request.Plans) ∧
        ∀ before r reply after, log = before ++ ⟨.delete r, reply⟩ :: after →
          ∃ templates, request.revision.inlinedTemplates = .ok templates ∧
            Association.Orphan composite templates r ∧
            ∃ earlier reference references, composite.resourceRefs = .ok references ∧
              reference ∈ references ∧
              before = earlier ++ [⟨.get reference, .ok (some r)⟩]) := by
  rw [compose_eq] at h
  obtain hplan | ⟨renditions, middle, _, planning, acting, rfl, -, hcarry⟩ := fails_bind.mp h
  · obtain ⟨rfl, hends⟩ := plan_fails hplan
    have hharmless := (plan_harmless request composite').of_reaches_recording hplan
    have htrace : (∀ exchange ∈ log, exchange.request.Plans) ∧
        ∀ before r reply after, log = before ++ ⟨.delete r, reply⟩ :: after →
          ∃ templates, request.revision.inlinedTemplates = .ok templates ∧
            Association.Orphan composite' templates r ∧
            ∃ earlier reference references, composite'.resourceRefs = .ok references ∧
              reference ∈ references ∧ before = earlier ++ [⟨.get reference, .ok (some r)⟩] := by
      refine ⟨(plan_always request composite').of_reaches hplan, ?_⟩
      rintro before r reply after rfl
      obtain ⟨templates, hinlined, horphan, -, hread⟩ := (hharmless before _ after rfl).2 r rfl
      exact ⟨templates, hinlined, horphan, hread⟩
    obtain ⟨⟨stage, hstage, cause, rfl, hcause⟩, hempty⟩ | ⟨stage, hstage, cause, rfl, hcause⟩ := hends
    · exact ⟨stage, cause, rfl, hcause, fun _ => hempty, fun _ => ⟨rfl, htrace⟩⟩
    · refine ⟨stage, cause, rfl, hcause, ?_, fun _ => ⟨rfl, htrace⟩⟩
      rintro rfl
      simp [Stage.matching] at hstage
  · -- What fails after the plan fails in a stage of its own.
    obtain ⟨stage, hstage, cause, rfl, hcause⟩ :=
      (carryOut_failsIn request.environment renditions).of_fails hcarry
    refine ⟨stage, cause, rfl, hcause, ?_, ?_⟩
    · rintro rfl
      simp [Stage.carryingOut] at hstage
    · rintro (rfl | rfl | rfl | rfl) <;> simp [Stage.carryingOut] at hstage

/-! ### A cellar that cannot be read twice -/

/-- A composite that refers to an old barrel and to a cask. -/
def cellar : Resource where
  typeMeta := some ⟨"v1", "Cellar"⟩
  metadata := {
    name := some "cellar", uid := some "u", labels := some [(Resource.prefixLabel, "cellar")] }
  body := [("spec", .object [("resourceRefs", .array [
    .object [("apiVersion", .string "v1"), ("kind", .string "Barrel"), ("name", .string "barrel")],
    .object [("apiVersion", .string "v1"), ("kind", .string "Cask"), ("name", .string "cask")]])])]

/-- A resource of the cellar, made by a template. -/
def cellared (kind name template : String) : Resource where
  typeMeta := some ⟨"v1", kind⟩
  metadata := {
    name := some name, annotations := some [(Resource.templateAnnotation, template)]
    ownerReferences := some [cellar.asController] }

/-- A recipe of a cask, and of no barrel. -/
def caskOnly : Revision where
  templates := [
    { name := some "cask", base := .object [("apiVersion", .string "v1"), ("kind", .string "Cask")] }]

/-- The store of the cellar and its resources. The cask can be read once. -/
def dimStore : List PlannedFault × Memory :=
  ([{ call := .get, name := some "cask", skip := 1,
      substitute := .error (.api { message := "gone dark", reason := "Unavailable", code := 503 }) }],
    (((({} : Memory).insert cellar).insert (cellared "Barrel" "barrel" "barrel")).insert
      (cellared "Cask" "cask" "cask")))

/-- An end is an error of observing, and something was deleted before it. -/
def observesAfterDeleting : Except CompositionError Outcome × Resource → List Exchange → Bool
  | (.error (.inStage .observe _), _), log =>
    log.any fun exchange => exchange.request.kind? = some .delete
  | _, _ => false

/-- The composition ends where the cask is observed. The barrel was deleted, and nothing was stored. -/
theorem cellar_fails : ∃ log e composite' last,
    (compose .standard { revision := caskOnly }).Fails Memory.handler.withFaults.world cellar dimStore
      log e composite' last ∧ (∃ exchange ∈ log, exchange.request.kind? = some .delete) ∧
    ∃ stage cause, e = .inStage stage cause ∧ cause.stage? = none ∧ stage = .observe ∧
      composite' = cellar ∧ ∀ exchange ∈ log, exchange.request.Plans := by
  obtain ⟨log, ⟨_ | _, composite'⟩, last, hreaches, hcheck⟩ := Program.reaches_of_run
    Memory.handler.withFaults ((compose .standard { revision := caskOnly }).run cellar) dimStore
    (fun ending _ log => observesAfterDeleting ending log) (by decide +kernel)
  · obtain ⟨stage, cause, rfl, hcause, -, hplanning⟩ := compose_fails hreaches
    obtain rfl : stage = .observe := by
      cases stage <;> first | rfl | cases hcheck
    obtain ⟨hcomposite, hplans, -⟩ := hplanning (by simp)
    exact ⟨log, _, composite', last, hreaches, by simpa [observesAfterDeleting] using hcheck, .observe,
      cause, rfl, hcause, rfl, hcomposite, hplans⟩
  · cases hcheck

end Composition

end ResourceComposition
