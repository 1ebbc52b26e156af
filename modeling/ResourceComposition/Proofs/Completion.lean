import ResourceComposition.Proofs.Execution

/-!
# Programs that get to their end

What a program did can be read off the fact that it came to its end: each step of it came to its
end, one after another, and the record of its exchanges is the records of the steps put together.
This holds in every world. `Attempt.Succeeds` and `Composing.Succeeds` say it of attempts and of
steps of a composition that end in success.
-/

namespace ResourceComposition

namespace Program

variable {σ α β : Type} {world : World σ} {s last : σ} {log : List Exchange}

theorem reaches_done {a b : α} :
    Reaches world (.done a) s log (.done b) last ↔ a = b ∧ log = [] ∧ s = last := by
  constructor
  · intro h
    cases h with
    | here => exact ⟨rfl, rfl, rfl⟩
  · rintro ⟨rfl, rfl, rfl⟩
    exact .here

/-- A program that goes on after a call comes to its end if the call is replied to and the rest
comes to its end. -/
theorem reaches_call {request : Call} {resume : request.Reply → Program α} {b : α} :
    Reaches world (.call request resume) s log (.done b) last ↔
      ∃ reply after more, world request s reply after ∧ log = ⟨request, reply⟩ :: more ∧
        Reaches world (resume reply) after more (.done b) last := by
  constructor
  · intro h
    cases h with
    | call hreply hrest => exact ⟨_, _, _, hreply, rfl, hrest⟩
  · rintro ⟨reply, after, more, hreply, rfl, hrest⟩
    exact .call hreply hrest

theorem reaches_ask {request : Call} {reply : request.Reply} :
    Reaches world (.ask request) s log (.done reply) last ↔
      world request s reply last ∧ log = [⟨request, reply⟩] := by
  rw [ask, reaches_call]
  constructor
  · rintro ⟨reply', after, more, hreply, rfl, hrest⟩
    obtain ⟨rfl, rfl, rfl⟩ := reaches_done.mp hrest
    exact ⟨hreply, rfl⟩
  · rintro ⟨hreply, rfl⟩
    exact ⟨reply, last, [], hreply, rfl, reaches_done.mpr ⟨rfl, rfl, rfl⟩⟩

/-- One program after another comes to its end if both do. -/
theorem reaches_bind {p : Program α} {f : α → Program β} {b : β} :
    Reaches world (p.bind f) s log (.done b) last ↔
      ∃ a middle before after, log = before ++ after ∧ Reaches world p s before (.done a) middle ∧
        Reaches world (f a) middle after (.done b) last := by
  induction p generalizing s log with
  | done a =>
    constructor
    · intro h
      exact ⟨a, s, [], log, rfl, .here, h⟩
    · rintro ⟨a', middle, before, after, rfl, hfirst, hsecond⟩
      obtain ⟨rfl, rfl, rfl⟩ := reaches_done.mp hfirst
      exact hsecond
  | call request resume ih =>
    simp only [bind, reaches_call, ih]
    constructor
    · rintro ⟨reply, next, _, hreply, rfl, a, middle, before, after, rfl, hfirst, hsecond⟩
      exact ⟨a, middle, _, after, rfl, ⟨reply, next, before, hreply, rfl, hfirst⟩, hsecond⟩
    · rintro ⟨a, middle, _, after, rfl, ⟨reply, next, before, hreply, rfl, hfirst⟩, hsecond⟩
      exact ⟨reply, next, _, hreply, rfl, a, middle, before, after, rfl, hfirst, hsecond⟩

theorem bind_assoc {γ : Type} (p : Program α) (f : α → Program β) (g : β → Program γ) :
    (p.bind f).bind g = p.bind fun a => (f a).bind g := by
  induction p with
  | done a => rfl
  | call request resume ih => simp only [bind, ih]

theorem bind_done (p : Program α) : p.bind .done = p := by
  induction p with
  | done a => rfl
  | call request resume ih =>
    rw [bind]
    exact congrArg (call request) (funext ih)

instance : LawfulMonad Program := .mk' Program bind_done (fun _ _ => rfl) bind_assoc

/-- What is done with the result of a program changes nothing on the way to it. -/
theorem reaches_bind_done {p : Program α} {f : α → β} {b : β} :
    Reaches world (p.bind fun a => .done (f a)) s log (.done b) last ↔
      ∃ a, Reaches world p s log (.done a) last ∧ f a = b := by
  rw [reaches_bind]
  constructor
  · rintro ⟨a, middle, before, after, rfl, hfirst, hsecond⟩
    obtain ⟨hb, rfl, rfl⟩ := reaches_done.mp hsecond
    exact ⟨a, by simpa using hfirst, hb⟩
  · rintro ⟨a, h, rfl⟩
    exact ⟨a, last, log, [], by simp, h, reaches_done.mpr ⟨rfl, rfl, rfl⟩⟩

/-- What a program comes to hangs on the replies alone. -/
theorem Reaches.unique {τ : Type} {world' : World τ} {t last' : τ} {more : List Exchange}
    {p : Program α} {a b : α} (h : Reaches world p s log (.done a) last)
    (h' : Reaches world' p t (log ++ more) (.done b) last') : a = b ∧ more = [] := by
  induction p generalizing s t log with
  | done result =>
    obtain ⟨rfl, rfl, -⟩ := reaches_done.mp h
    obtain ⟨rfl, rfl, -⟩ := reaches_done.mp h'
    exact ⟨rfl, rfl⟩
  | call request resume ih =>
    obtain ⟨reply, after, rest, -, rfl, hrest⟩ := reaches_call.mp h
    obtain ⟨reply', after', rest', -, hlog, hrest'⟩ := reaches_call.mp h'
    simp only [List.cons_append, List.cons.injEq, Exchange.mk.injEq, heq_eq_eq, true_and] at hlog
    obtain ⟨rfl, rfl⟩ := hlog
    exact ih reply hrest hrest'

/-- Two ways to come to the end with records that one record begins with are the same. -/
theorem Reaches.unique_of_append {τ : Type} {world' : World τ} {t last' : τ}
    {log' rest rest' : List Exchange} {p : Program α} {a b : α}
    (h : Reaches world p s log (.done a) last) (h' : Reaches world' p t log' (.done b) last')
    (hlog : log ++ rest = log' ++ rest') : a = b ∧ log = log' := by
  rcases List.append_eq_append_iff.mp hlog with ⟨more, rfl, -⟩ | ⟨more, rfl, -⟩
  · obtain ⟨rfl, rfl⟩ := h.unique h'
    exact ⟨rfl, by simp⟩
  · obtain ⟨rfl, rfl⟩ := h'.unique h
    exact ⟨rfl, by simp⟩

/-- The record that a handler keeps of a run is the one by which the run gets to its end. -/
theorem reaches_run_logged (handler : Handler σ) (p : Program α) (s : σ) (before : List Exchange) :
    ∃ log, p.run handler.logged (s, before) = ((p.run handler s).1, (p.run handler s).2, before ++ log) ∧
      Reaches handler.world p s log (.done (p.run handler s).1) (p.run handler s).2 := by
  induction p generalizing s before with
  | done result => exact ⟨[], by simp [run], .here⟩
  | call request resume ih =>
    obtain ⟨log, hlogged, hreaches⟩ := ih (handler.reply request s).1 (handler.reply request s).2
      (before ++ [⟨request, (handler.reply request s).1⟩])
    refine ⟨⟨request, (handler.reply request s).1⟩ :: log, ?_, .call rfl hreaches⟩
    simpa [run, Handler.logged] using hlogged

theorem run_logged_of_reaches {handler : Handler σ} {p : Program α} {a : α}
    (h : Reaches handler.world p s log (.done a) last) (before : List Exchange) :
    p.run handler.logged (s, before) = (a, last, before ++ log) := by
  induction p generalizing s log before with
  | done result =>
    obtain ⟨rfl, rfl, rfl⟩ := reaches_done.mp h
    rw [run, List.append_nil]
  | call request resume ih =>
    obtain ⟨reply, after, more, hreply, rfl, hrest⟩ := reaches_call.mp h
    rw [List.append_cons, ← ih reply hrest]
    simp only [Handler.world] at hreply
    simp [run, Handler.logged, hreply]

/-- To run a program against a handler is to come to its end in the world of the handler. -/
theorem run_logged_eq_iff {handler : Handler σ} {p : Program α} {a : α} :
    p.run handler.logged (s, []) = (a, last, log) ↔
      Reaches handler.world p s log (.done a) last := by
  refine ⟨fun h => ?_, fun h => run_logged_of_reaches h []⟩
  obtain ⟨log', hlogged, hreaches⟩ := reaches_run_logged handler p s []
  simp only [h, List.nil_append, Prod.mk.injEq] at hlogged
  obtain ⟨rfl, rfl, rfl⟩ := hlogged
  exact hreaches

/-- A program that is run against a handler comes to its end in the world of the handler. What is
checked of the result, the state and the record of the run is so of that end. -/
theorem reaches_of_run (handler : Handler σ) (p : Program α) (s : σ)
    (check : α → σ → List Exchange → Bool)
    (h : (let (a, last, log) := p.run handler.logged (s, [])
      check a last log) = true) :
    ∃ log a last, Reaches handler.world p s log (.done a) last ∧ check a last log = true := by
  obtain ⟨log, hlogged, hreaches⟩ := reaches_run_logged handler p s []
  rw [hlogged] at h
  exact ⟨log, _, _, hreaches, h⟩

end Program

open Program

/-! ### Attempts -/

namespace Attempt

variable {σ α β : Type} {world : World σ} {s last : σ} {log : List Exchange}

/-- An attempt comes to a successful end. -/
def Succeeds (world : World σ) (p : Attempt α) (s : σ) (log : List Exchange) (a : α) (last : σ) :
    Prop := Reaches world p.run s log (.done (.ok a)) last

theorem succeeds_pure {a b : α} :
    (pure a : Attempt α).Succeeds world s log b last ↔ a = b ∧ log = [] ∧ s = last := by
  refine reaches_done.trans ?_
  rw [Except.ok.injEq]

theorem succeeds_bind {p : Attempt α} {f : α → Attempt β} {b : β} :
    (p >>= f).Succeeds world s log b last ↔
      ∃ a middle before after, log = before ++ after ∧ p.Succeeds world s before a middle ∧
        (f a).Succeeds world middle after b last := by
  refine reaches_bind.trans ⟨?_, ?_⟩
  · rintro ⟨e | a, middle, before, after, rfl, hfirst, hsecond⟩
    · obtain ⟨habsurd, -⟩ := reaches_done.mp hsecond
      cases habsurd
    · exact ⟨a, middle, before, after, rfl, hfirst, hsecond⟩
  · rintro ⟨a, middle, before, after, rfl, hfirst, hsecond⟩
    exact ⟨.ok a, middle, before, after, rfl, hfirst, hsecond⟩

theorem succeeds_ofExcept {result : Except CompositionError α} {a : α} :
    (ofExcept result).Succeeds world s log a last ↔ result = .ok a ∧ log = [] ∧ s = last :=
  reaches_done

theorem succeeds_throw {e : CompositionError} {a : α} :
    ¬ (throw e : Attempt α).Succeeds world s log a last := by
  intro h
  obtain ⟨habsurd, -⟩ := reaches_done.mp h
  cases habsurd

theorem succeeds_asking {p : Program (Except Error α)} {failure : Error → CompositionError}
    {a : α} : (asking p failure).Succeeds world s log a last ↔
      Reaches world p s log (.done (.ok a)) last := by
  refine reaches_bind_done.trans ⟨?_, fun h => ⟨.ok a, h, rfl⟩⟩
  rintro ⟨e | a', h, hend⟩
  · cases hend
  · obtain rfl : a' = a := Except.ok.inj hend
    exact h

/-- An object that was looked for was read, or the store said that it is not there. -/
theorem succeeds_find {reference : Reference} {failure : Error → CompositionError}
    {object? : Option Resource} :
    (find reference failure).Succeeds world s log object? last ↔
      ∃ reply, log = [⟨.get reference, reply⟩] ∧ world (.get reference) s reply last ∧
        (reply = .ok object? ∨ ∃ e, reply = .error e ∧ e.isNotFound ∧ object? = none) := by
  refine succeeds_asking.trans (reaches_bind.trans ⟨?_, ?_⟩)
  · rintro ⟨reply, middle, before, after, rfl, hfirst, hsecond⟩
    obtain ⟨hreply, rfl⟩ := reaches_ask.mp hfirst
    cases reply with
    | ok found =>
      obtain ⟨hfound, rfl, rfl⟩ := reaches_done.mp hsecond
      exact ⟨_, rfl, hreply, .inl hfound⟩
    | error e =>
      obtain ⟨hfound, rfl, rfl⟩ := reaches_done.mp hsecond
      refine ⟨_, rfl, hreply, .inr ⟨e, rfl, ?_⟩⟩
      split at hfound
      · next hgone => exact ⟨hgone, (Except.ok.inj hfound).symm⟩
      · cases hfound
  · rintro ⟨reply, rfl, hreply, rfl | ⟨e, rfl, hgone, rfl⟩⟩
    · exact ⟨_, last, _, [], rfl, reaches_ask.mpr ⟨hreply, rfl⟩, reaches_done.mpr ⟨rfl, rfl, rfl⟩⟩
    · refine ⟨_, last, _, [], rfl, reaches_ask.mpr ⟨hreply, rfl⟩, reaches_done.mpr ⟨?_, rfl, rfl⟩⟩
      simp [hgone]

/-- One attempt after another comes to the end of the second, or to the failure of the first. -/
theorem reaches_run_bind {p : Attempt α} {f : α → Attempt β} {result : Except CompositionError β} :
    Reaches world (p >>= f).run s log (.done result) last ↔
      (∃ e, Reaches world p.run s log (.done (.error e)) last ∧ result = .error e) ∨
        ∃ a middle before after, log = before ++ after ∧ p.Succeeds world s before a middle ∧
          Reaches world (f a).run middle after (.done result) last := by
  refine reaches_bind.trans ⟨?_, ?_⟩
  · rintro ⟨e | a, middle, before, after, rfl, hfirst, hsecond⟩
    · obtain ⟨rfl, rfl, rfl⟩ := reaches_done.mp hsecond
      exact .inl ⟨e, by rwa [List.append_nil], rfl⟩
    · exact .inr ⟨a, middle, before, after, rfl, hfirst, hsecond⟩
  · rintro (⟨e, h, rfl⟩ | ⟨a, middle, before, after, rfl, hfirst, hsecond⟩)
    · exact ⟨.error e, last, log, [], by simp, h, reaches_done.mpr ⟨rfl, rfl, rfl⟩⟩
    · exact ⟨.ok a, middle, before, after, rfl, hfirst, hsecond⟩

theorem reaches_run_asking {p : Program (Except Error α)} {failure : Error → CompositionError}
    {result : Except CompositionError α} :
    Reaches world (asking p failure).run s log (.done result) last ↔
      ∃ reply, Reaches world p s log (.done reply) last ∧ reply.mapError failure = result :=
  reaches_bind_done

/-- Looking for an object is one call. It fails only if the store does not say that the object is not
there. -/
theorem of_reaches_find {reference : Reference} {failure : Error → CompositionError}
    {result : Except CompositionError (Option Resource)}
    (h : Reaches world (find reference failure).run s log (.done result) last) :
    ∃ reply, log = [⟨.get reference, reply⟩] ∧
      ((∃ object?, reply = .ok object? ∧ result = .ok object?) ∨
        (∃ e, reply = .error e ∧ e.isNotFound = true ∧ result = .ok none) ∨
        ∃ e, reply = .error e ∧ result = .error (failure e)) := by
  obtain ⟨found, hfind, rfl⟩ := reaches_run_asking.mp h
  obtain ⟨reply, middle, before, after, rfl, hfirst, hsecond⟩ := reaches_bind.mp hfind
  obtain ⟨-, rfl⟩ := reaches_ask.mp hfirst
  cases reply with
  | ok object? =>
    obtain ⟨rfl, rfl, -⟩ := reaches_done.mp hsecond
    exact ⟨_, rfl, .inl ⟨object?, rfl, rfl⟩⟩
  | error e =>
    obtain ⟨rfl, rfl, -⟩ := reaches_done.mp hsecond
    refine ⟨_, rfl, .inr ?_⟩
    by_cases hgone : e.isNotFound = true
    · exact .inl ⟨e, rfl, hgone, by rw [if_pos hgone]; rfl⟩
    · exact .inr ⟨e, rfl, by rw [if_neg hgone]; rfl⟩

end Attempt

/-! ### Steps that may change the composite -/

namespace Composing

variable {σ α β : Type} {world : World σ} {composite composite' : Resource} {s last : σ}
  {log : List Exchange}

/-- A step comes to a successful end, and leaves the composite as it is then. -/
def Succeeds (world : World σ) (p : Composing α) (composite : Resource) (s : σ)
    (log : List Exchange) (a : α) (composite' : Resource) (last : σ) : Prop :=
  Reaches world (p.run composite) s log (.done (.ok a, composite')) last

theorem succeeds_pure {a b : α} :
    (pure a : Composing α).Succeeds world composite s log b composite' last ↔
      a = b ∧ composite = composite' ∧ log = [] ∧ s = last := by
  refine reaches_done.trans ?_
  rw [Prod.mk.injEq, Except.ok.injEq, and_assoc]

theorem succeeds_bind {p : Composing α} {f : α → Composing β} {b : β} :
    (p >>= f).Succeeds world composite s log b composite' last ↔
      ∃ a middle composite₁ before after, log = before ++ after ∧
        p.Succeeds world composite s before a composite₁ middle ∧
        (f a).Succeeds world composite₁ middle after b composite' last := by
  refine reaches_bind.trans ⟨?_, ?_⟩
  · rintro ⟨⟨e | a, composite₁⟩, middle, before, after, rfl, hfirst, hsecond⟩
    · obtain ⟨habsurd, -⟩ := reaches_done.mp hsecond
      cases (Prod.mk.inj habsurd).1
    · exact ⟨a, middle, composite₁, before, after, rfl, hfirst, hsecond⟩
  · rintro ⟨a, middle, composite₁, before, after, rfl, hfirst, hsecond⟩
    exact ⟨(.ok a, composite₁), middle, before, after, rfl, hfirst, hsecond⟩

theorem succeeds_get {c : Resource} :
    (get : Composing Resource).Succeeds world composite s log c composite' last ↔
      c = composite ∧ composite' = composite ∧ log = [] ∧ s = last := by
  refine reaches_done.trans ?_
  rw [Prod.mk.injEq, Except.ok.injEq, and_assoc, eq_comm, eq_comm (a := composite)]

/-- A step that begins with a look at the composite. -/
theorem succeeds_get_bind {f : Resource → Composing β} {b : β} :
    ((get : Composing Resource) >>= f).Succeeds world composite s log b composite' last ↔
      (f composite).Succeeds world composite s log b composite' last := Iff.rfl

theorem succeeds_setComposite {c : Resource} :
    (setComposite c).Succeeds world composite s log () composite' last ↔
      composite' = c ∧ log = [] ∧ s = last := by
  refine reaches_done.trans ?_
  rw [Prod.mk.injEq, eq_comm (a := c)]
  simp

theorem succeeds_throw {e : CompositionError} {a : α} :
    ¬ (throw e : Composing α).Succeeds world composite s log a composite' last := by
  intro h
  obtain ⟨habsurd, -⟩ := reaches_done.mp h
  cases (Prod.mk.inj habsurd).1

theorem succeeds_during {stage : Stage} {p : Attempt α} {a : α} :
    (during stage p).Succeeds world composite s log a composite' last ↔
      composite' = composite ∧ p.Succeeds world s log a last := by
  refine reaches_bind.trans ⟨?_, ?_⟩
  · rintro ⟨e | a', middle, before, after, rfl, hfirst, hsecond⟩
    · obtain ⟨habsurd, -⟩ := reaches_done.mp hsecond
      cases (Prod.mk.inj habsurd).1
    · obtain ⟨hend, rfl, rfl⟩ := reaches_done.mp hsecond
      obtain ⟨ha, rfl⟩ := Prod.mk.inj hend
      obtain rfl : a' = a := Except.ok.inj ha
      exact ⟨rfl, by simpa [Attempt.Succeeds] using hfirst⟩
  · rintro ⟨rfl, h⟩
    exact ⟨.ok a, last, log, [], by simp, h, reaches_done.mpr ⟨rfl, rfl, rfl⟩⟩

theorem run_renderComposed (t : Template) (environment : Json) (composite before : Resource) :
    (rendering (Renderer.composed t environment) before).run composite =
      (t.render environment composite before).run.bind fun result =>
        .done (.ok result, composite) := by
  refine (Program.bind_assoc (t.render environment composite before).run _ _).trans ?_
  congr 1
  funext result
  cases result <;> rfl

/-- The composed resource is rendered, or is not, and the composite stays. -/
theorem succeeds_renderComposed {t : Template} {environment : Json} {before : Resource}
    {result : Except CompositionError Resource} :
    (rendering (Renderer.composed t environment) before).Succeeds world composite s log result
        composite' last ↔
      composite' = composite ∧
        Reaches world (t.render environment composite before).run s log (.done result) last := by
  rw [Succeeds, run_renderComposed, reaches_bind_done]
  constructor
  · rintro ⟨result', h, hend⟩
    obtain ⟨hresult, rfl⟩ := Prod.mk.inj hend
    obtain rfl := Except.ok.inj hresult
    exact ⟨rfl, h⟩
  · rintro ⟨rfl, h⟩
    exact ⟨result, h, rfl⟩

/-- The composite is rendered with success, and the composed resource stays. -/
theorem succeeds_renderComposite {t : Template} (environment : Json)
    {composed composed' : Resource} :
    (rendering (Renderer.composite t environment) composed).Succeeds world composite s log
        (.ok composed') composite' last ↔
      composed' = composed ∧ Patch.applyToComposite t.patches composed composite = .ok composite' ∧
        log = [] ∧ s = last := by
  cases hpatches : Patch.applyToComposite t.patches composed composite with
  | error e =>
    have hrun : (rendering (Renderer.composite t environment) composed).run composite =
        .done (.ok (.error e), composite) := by
      simp only [rendering, Renderer.composite, ExceptT.run, hpatches]
      rfl
    rw [Succeeds, hrun]
    simp [reaches_done]
  | ok c =>
    have hrun : (rendering (Renderer.composite t environment) composed).run composite =
        .done (.ok (.ok composed), c) := by
      simp only [rendering, Renderer.composite, ExceptT.run, hpatches]
      rfl
    rw [Succeeds, hrun]
    simp [reaches_done, and_assoc, eq_comm]

end Composing

end ResourceComposition
