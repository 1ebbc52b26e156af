import ResourceComposition.Proofs.Course

/-!
# Programs that are about to call

`Program.Calls` says that a program, after some exchanges, is about to make a call. A program that
goes on after another calls if the first calls, or if the first came to its end and the second calls
(`Program.calls_bind`). So the call that a composition is about to make can be traced to the step
that makes it, with all that the steps before came to.
-/

namespace ResourceComposition

namespace Program

variable {σ α β : Type} {world : World σ} {s last : σ} {log : List Exchange} {request : Call}

/-- After some exchanges a program is about to make a call. -/
def Calls (world : World σ) (p : Program α) (s : σ) (log : List Exchange) (request : Call)
    (last : σ) : Prop :=
  ∃ resume, Reaches world p s log (.call request resume) last

theorem calls_done {a : α} : ¬ (done a : Program α).Calls world s log request last := by
  rintro ⟨resume, h⟩
  cases h

/-- A program that begins with a call is about to make this one, or one after the reply. -/
theorem calls_call {first : Call} {resume : first.Reply → Program α} :
    (call first resume).Calls world s log request last ↔
      (request = first ∧ log = [] ∧ last = s) ∨
        ∃ reply after more, world first s reply after ∧ log = ⟨first, reply⟩ :: more ∧
          (resume reply).Calls world after more request last := by
  constructor
  · rintro ⟨rest, h⟩
    cases h with
    | here => exact .inl ⟨rfl, rfl, rfl⟩
    | call hreply hrest => exact .inr ⟨_, _, _, hreply, rfl, rest, hrest⟩
  · rintro (⟨rfl, rfl, rfl⟩ | ⟨reply, after, more, hreply, rfl, rest, hrest⟩)
    · exact ⟨resume, .here⟩
    · exact ⟨rest, .call hreply hrest⟩

theorem calls_ask {first : Call} :
    (ask first).Calls world s log request last ↔ request = first ∧ log = [] ∧ last = s := by
  rw [ask, calls_call]
  refine ⟨?_, .inl⟩
  rintro (h | ⟨_, _, _, -, -, hdone⟩)
  · exact h
  · exact absurd hdone calls_done

/-- One program after another is about to make a call of the first, or one of the second after the
first came to its end. -/
theorem calls_bind {p : Program α} {f : α → Program β} :
    (p.bind f).Calls world s log request last ↔
      p.Calls world s log request last ∨
        ∃ a middle before after, log = before ++ after ∧ Reaches world p s before (.done a) middle ∧
          (f a).Calls world middle after request last := by
  induction p generalizing s log with
  | done a =>
    refine ⟨fun h => .inr ⟨a, s, [], log, rfl, .here, h⟩, ?_⟩
    rintro (h | ⟨a', middle, before, after, rfl, hfirst, hsecond⟩)
    · exact absurd h calls_done
    · obtain ⟨rfl, rfl, rfl⟩ := reaches_done.mp hfirst
      exact hsecond
  | call first resume ih =>
    simp only [bind, calls_call, reaches_call, ih]
    constructor
    · rintro (h | ⟨reply, next, _, hreply, rfl, h | ⟨a, middle, before, after, rfl, hfirst, hsecond⟩⟩)
      · exact .inl (.inl h)
      · exact .inl (.inr ⟨reply, next, _, hreply, rfl, h⟩)
      · exact .inr ⟨a, middle, _, after, rfl, ⟨reply, next, before, hreply, rfl, hfirst⟩, hsecond⟩
    · rintro ((h | ⟨reply, next, _, hreply, rfl, h⟩) |
        ⟨a, middle, _, after, rfl, ⟨reply, next, before, hreply, rfl, hfirst⟩, hsecond⟩)
      · exact .inl h
      · exact .inr ⟨reply, next, _, hreply, rfl, .inl h⟩
      · exact .inr ⟨reply, next, _, hreply, rfl, .inr ⟨a, middle, before, after, rfl, hfirst, hsecond⟩⟩

/-- The call that a program is about to make is one that it can make. -/
theorem Always.of_calls {allowed : Call → Prop} {p : Program α} (hp : p.Always allowed)
    (h : p.Calls world s log request last) : allowed request := by
  obtain ⟨resume, h⟩ := h
  generalize hq : call request resume = q at h
  induction h with
  | here =>
    subst hq
    exact hp.1
  | call _ _ ih => exact ih (hp.2 _) hq

end Program

namespace Attempt

variable {σ α β : Type} {world : World σ} {s last : σ} {log : List Exchange} {request : Call}

/-- An attempt is about to make a call. -/
def Calls (world : World σ) (p : Attempt α) (s : σ) (log : List Exchange) (request : Call)
    (last : σ) : Prop := p.run.Calls world s log request last

theorem calls_ofExcept {result : Except CompositionError α} :
    ¬ (ofExcept result).Calls world s log request last := Program.calls_done

theorem calls_pure {a : α} : ¬ (pure a : Attempt α).Calls world s log request last :=
  Program.calls_done

theorem calls_bind {p : Attempt α} {f : α → Attempt β} :
    (p >>= f).Calls world s log request last ↔
      p.Calls world s log request last ∨
        ∃ a middle before after, log = before ++ after ∧ p.Succeeds world s before a middle ∧
          (f a).Calls world middle after request last := by
  refine Program.calls_bind.trans (or_congr_right ⟨?_, ?_⟩)
  · rintro ⟨e | a, middle, before, after, rfl, hfirst, hsecond⟩
    · exact absurd hsecond Program.calls_done
    · exact ⟨a, middle, before, after, rfl, hfirst, hsecond⟩
  · rintro ⟨a, middle, before, after, rfl, hfirst, hsecond⟩
    exact ⟨.ok a, middle, before, after, rfl, hfirst, hsecond⟩

theorem calls_asking {p : Program (Except Error α)} {failure : Error → CompositionError} :
    (asking p failure).Calls world s log request last ↔ p.Calls world s log request last := by
  refine Program.calls_bind.trans (or_iff_left ?_)
  rintro ⟨_, _, _, _, -, -, hdone⟩
  exact Program.calls_done hdone

end Attempt

namespace Composing

variable {σ α β : Type} {world : World σ} {composite : Resource} {s last : σ}
  {log : List Exchange} {request : Call}

/-- A step is about to make a call. -/
def Calls (world : World σ) (p : Composing α) (composite : Resource) (s : σ)
    (log : List Exchange) (request : Call) (last : σ) : Prop :=
  (p.run composite).Calls world s log request last

theorem calls_pure {a : α} : ¬ (pure a : Composing α).Calls world composite s log request last :=
  Program.calls_done

theorem calls_throw {e : CompositionError} :
    ¬ (throw e : Composing α).Calls world composite s log request last := Program.calls_done

theorem calls_setComposite {c : Resource} :
    ¬ (setComposite c).Calls world composite s log request last := Program.calls_done

theorem calls_bind {p : Composing α} {f : α → Composing β} :
    (p >>= f).Calls world composite s log request last ↔
      p.Calls world composite s log request last ∨
        ∃ a middle composite₁ before after, log = before ++ after ∧
          p.Succeeds world composite s before a composite₁ middle ∧
          (f a).Calls world composite₁ middle after request last := by
  refine Program.calls_bind.trans (or_congr_right ⟨?_, ?_⟩)
  · rintro ⟨⟨e | a, composite₁⟩, middle, before, after, rfl, hfirst, hsecond⟩
    · exact absurd hsecond Program.calls_done
    · exact ⟨a, middle, composite₁, before, after, rfl, hfirst, hsecond⟩
  · rintro ⟨a, middle, composite₁, before, after, rfl, hfirst, hsecond⟩
    exact ⟨(.ok a, composite₁), middle, before, after, rfl, hfirst, hsecond⟩

/-- A step that begins with a look at the composite. -/
theorem calls_get_bind {f : Resource → Composing β} :
    ((get : Composing Resource) >>= f).Calls world composite s log request last ↔
      (f composite).Calls world composite s log request last := Iff.rfl

theorem calls_during {stage : Stage} {p : Attempt α} :
    (during stage p).Calls world composite s log request last ↔ p.Calls world s log request last := by
  refine Program.calls_bind.trans (or_iff_left ?_)
  rintro ⟨e | a, _, _, _, -, -, hdone⟩ <;> exact Program.calls_done hdone

/-- Rendering the composite calls nothing. -/
theorem calls_renderComposite (t : Template) (environment : Json) (composed : Resource) :
    ¬ (rendering (Renderer.composite t environment) composed).Calls world composite s log request
      last := fun h =>
  have hnever : (rendering (Renderer.composite t environment) composed).Always fun _ => False :=
    always_renderComposite t environment composed
  (hnever composite).of_calls h

end Composing

end ResourceComposition
