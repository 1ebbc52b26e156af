import ResourceComposition.Composition.Basic

/-!
# What programs do in a world

A handler replies to each call in one way. A world, as it is understood here, may reply in several
ways: it is a relation that says which replies a call can get in a state, and which states can come
after. Stores that fail at will, or make up names as they like, are worlds of this kind.

`Program.Reaches` says how far a program can get in a world, call by call, so that also a state in
the middle of a program can be spoken of. `Program.Keeps` says that every call a program makes is
allowed in the state in which it is made, and that every result is wanted. The two meet in
`Keeps.reaches`; the rules for `Keeps` follow the way programs are put together.
-/

namespace ResourceComposition

/-- A world that may reply to a call in several ways: the replies that a call can get in a state,
each with the states that can come after. -/
abbrev World (σ : Type) : Type := (request : Call) → σ → request.Reply → σ → Prop

/-- The world that replies as a handler does. -/
def Handler.world {σ : Type} (handler : Handler σ) : World σ := fun request s reply after =>
  handler.reply request s = (reply, after)

/-- The world that replies in every way and keeps a record of all calls. -/
def World.recording : World (List Exchange) := fun request log reply after =>
  after = log ++ [⟨request, reply⟩]

namespace Program

variable {σ α β : Type} {world : World σ} {allowed : Call → σ → Prop}

/-- A program makes exchanges in a world, first to last, and has the rest of it still to do. -/
inductive Reaches (world : World σ) : Program α → σ → List Exchange → Program α → σ → Prop where
  /-- Nothing happens. -/
  | here {p : Program α} {s : σ} : Reaches world p s [] p s
  /-- A call gets a reply, and the program goes on. -/
  | call {request : Call} {resume : request.Reply → Program α} {reply : request.Reply} {s after : σ}
      {log : List Exchange} {q : Program α} {last : σ} : world request s reply after →
      Reaches world (resume reply) after log q last →
      Reaches world (.call request resume) s (⟨request, reply⟩ :: log) q last

/-- Whatever a world replies, every call that a program makes is allowed in the state in which it
is made, and every result is wanted. -/
def Keeps (world : World σ) (allowed : Call → σ → Prop) (wanted : α → σ → Prop) :
    Program α → σ → Prop
  | .done result, s => wanted result s
  | .call request resume, s => allowed request s ∧
    ∀ reply after, world request s reply after → (resume reply).Keeps world allowed wanted after

/-- A program keeps to its rules on the way. -/
theorem Keeps.reaches {wanted : α → σ → Prop} {p q : Program α} {s last : σ} {log : List Exchange}
    (h : Reaches world p s log q last) (hp : p.Keeps world allowed wanted s) :
    q.Keeps world allowed wanted last := by
  induction h with
  | here => exact hp
  | call hreply _ ih => exact ih (hp.2 _ _ hreply)

/-- All calls that a program made on the way were allowed. -/
theorem Keeps.allowed_of_mem {wanted : α → σ → Prop} {p q : Program α} {s last : σ}
    {log : List Exchange} (h : Reaches world p s log q last) (hp : p.Keeps world allowed wanted s)
    {exchange : Exchange} (hmem : exchange ∈ log) : ∃ s, allowed exchange.request s := by
  induction h with
  | here => cases hmem
  | call hreply _ ih =>
    obtain rfl | hmem := List.mem_cons.mp hmem
    · exact ⟨_, hp.1⟩
    · exact ih (hp.2 _ _ hreply) hmem

theorem Keeps.mono {wanted wanted' : α → σ → Prop} {p : Program α} {s : σ}
    (hp : p.Keeps world allowed wanted s) (h : ∀ result after, wanted result after →
      wanted' result after) : p.Keeps world allowed wanted' s := by
  induction p generalizing s with
  | done result => exact h result s hp
  | call request resume ih => exact ⟨hp.1, fun reply after hr => ih reply (hp.2 reply after hr)⟩

/-- What is allowed may be more. -/
theorem Keeps.weaken {allowed' : Call → σ → Prop} {wanted : α → σ → Prop} {p : Program α} {s : σ}
    (hp : p.Keeps world allowed wanted s)
    (h : ∀ request s, allowed request s → allowed' request s) :
    p.Keeps world allowed' wanted s := by
  induction p generalizing s with
  | done result => exact hp
  | call request resume ih =>
    exact ⟨h request s hp.1, fun reply after hr => ih reply (hp.2 reply after hr)⟩

theorem keeps_bind {wanted : β → σ → Prop} {p : Program α} {f : α → Program β} {s : σ} :
    (p.bind f).Keeps world allowed wanted s ↔
      p.Keeps world allowed (fun result after => (f result).Keeps world allowed wanted after) s := by
  induction p generalizing s with
  | done result => rfl
  | call request resume ih =>
    simp only [bind, Keeps]
    exact and_congr_right fun _ => forall_congr' fun reply => forall_congr' fun after =>
      forall_congr' fun _ => ih reply

/-- A run against a handler gets to its end in the world of the handler. -/
theorem reaches_run (handler : Handler σ) (p : Program α) (s : σ) :
    ∃ log, Reaches handler.world p s log (.done (p.run handler s).1) (p.run handler s).2 := by
  induction p generalizing s with
  | done result => exact ⟨[], .here⟩
  | call request resume ih =>
    obtain ⟨log, h⟩ := ih (handler.reply request s).1 (handler.reply request s).2
    exact ⟨_, .call rfl h⟩

/-- A program that runs against a handler until it makes a call of a certain kind. -/
def upTo (handler : Handler σ) (stop : Call → Bool) : Program α → σ → Program α × σ
  | .done result, s => (.done result, s)
  | .call request resume, s =>
    if stop request then (.call request resume, s)
    else
      let (reply, after) := handler.reply request s
      (resume reply).upTo handler stop after

theorem reaches_upTo (handler : Handler σ) (stop : Call → Bool) (p : Program α) (s : σ) :
    ∃ log, Reaches handler.world p s log (p.upTo handler stop s).1 (p.upTo handler stop s).2 := by
  induction p generalizing s with
  | done result => exact ⟨[], .here⟩
  | call request resume ih =>
    unfold upTo
    split
    · exact ⟨[], .here⟩
    · obtain ⟨log, h⟩ := ih (handler.reply request s).1 (handler.reply request s).2
      exact ⟨_, .call rfl h⟩

/-- What a world allows more, it allows a program to reach. -/
theorem Reaches.mono {world' : World σ} {p q : Program α} {s last : σ} {log : List Exchange}
    (h : Reaches world p s log q last)
    (hw : ∀ request s reply after, world request s reply after → world' request s reply after) :
    Reaches world' p s log q last := by
  induction h with
  | here => exact .here
  | call hreply _ ih => exact .call (hw _ _ _ _ hreply) ih

/-- What a program keeps to in the recording world holds of the record of every run: each call was
allowed by the record before it, and the result is wanted with the whole record. -/
theorem Keeps.run_logged {allowed : Call → List Exchange → Prop} {wanted : α → List Exchange → Prop}
    {p : Program α} {log : List Exchange} (hp : p.Keeps .recording allowed wanted log)
    (handler : Handler σ) (s : σ) :
    ∃ more, (p.run handler.logged (s, log)).2.2 = log ++ more ∧
      wanted (p.run handler.logged (s, log)).1 (log ++ more) ∧
      ∀ before exchange after, more = before ++ exchange :: after →
        allowed exchange.request (log ++ before) := by
  induction p generalizing s log with
  | done result => exact ⟨[], by simp [run], by simpa [run, Keeps] using hp, by simp⟩
  | call request resume ih =>
    obtain ⟨more, hlog, hwanted, hall⟩ :=
      ih (handler.reply request s).1 (hp.2 _ _ rfl) (handler.reply request s).2
    refine ⟨⟨request, (handler.reply request s).1⟩ :: more, ?_, ?_, ?_⟩
    · simpa [run, Handler.logged] using hlog
    · simpa [run, Handler.logged] using hwanted
    · intro before exchange after h
      cases before with
      | nil =>
        obtain ⟨rfl, -⟩ := List.cons.inj h
        simpa using hp.1
      | cons first before =>
        obtain ⟨rfl, hmore⟩ := List.cons.inj h
        have := hall before exchange after hmore
        rwa [List.append_assoc] at this

end Program

/-! ### Attempts -/

/-- What is wanted of an end in success and of an end in failure, taken together. -/
def Ends {σ ε α : Type} (ok : α → σ → Prop) (failed : σ → Prop) : Except ε α → σ → Prop
  | .ok result, s => ok result s
  | .error _, s => failed s

namespace Attempt

variable {σ α β : Type} {world : World σ} {allowed : Call → σ → Prop}

/-- An attempt makes allowed calls only, and ends as wanted, in success or in failure. -/
def Keeps (world : World σ) (allowed : Call → σ → Prop) (ok : α → σ → Prop) (failed : σ → Prop)
    (p : Attempt α) (s : σ) : Prop := p.run.Keeps world allowed (Ends ok failed) s

variable {ok : α → σ → Prop} {failed : σ → Prop} {s : σ}

theorem keeps_pure {result : α} : (pure result : Attempt α).Keeps world allowed ok failed s ↔
    ok result s := Iff.rfl

theorem keeps_bind {p : Attempt β} {f : β → Attempt α} :
    (p >>= f).Keeps world allowed ok failed s ↔
      p.Keeps world allowed (fun result after => (f result).Keeps world allowed ok failed after)
        failed s := by
  refine Program.keeps_bind.trans ⟨fun h => h.mono ?_, fun h => h.mono ?_⟩ <;>
    · rintro (_ | _) after h <;> exact h

theorem keeps_ofExcept {result : Except CompositionError α} :
    (ofExcept result).Keeps world allowed ok failed s ↔ Ends ok failed result s := Iff.rfl

theorem keeps_asking {p : Program (Except Error α)} {failure : Error → CompositionError} :
    (asking p failure).Keeps world allowed ok failed s ↔
      p.Keeps world allowed (Ends ok failed) s := by
  refine Program.keeps_bind.trans ⟨fun h => h.mono ?_, fun h => h.mono ?_⟩ <;>
    · rintro (_ | _) after h <;> exact h

/-- An object is looked for: that it was not found counts as none. -/
theorem keeps_find {ok : Option Resource → σ → Prop} {reference : Reference}
    {failure : Error → CompositionError} (hallowed : allowed (.get reference) s)
    (hok : ∀ object? after, world (.get reference) s (.ok object?) after → ok object? after)
    (hgone : ∀ e after, world (.get reference) s (.error e) after → e.isNotFound → ok none after)
    (hfailed : ∀ e after, world (.get reference) s (.error e) after → failed after) :
    (find reference failure).Keeps world allowed ok failed s := by
  refine keeps_asking.mpr ⟨hallowed, ?_⟩
  rintro (e | object?) after h
  · by_cases he : e.isNotFound
    · simpa [Program.bind, Program.Keeps, he, Ends] using hgone e after h he
    · simpa [Program.bind, Program.Keeps, he, Ends] using hfailed e after h
  · exact hok object? after h

theorem Keeps.mono {ok' : α → σ → Prop} {failed' : σ → Prop} {p : Attempt α}
    (hp : p.Keeps world allowed ok failed s) (hok : ∀ result after, ok result after →
      ok' result after) (hfailed : ∀ after, failed after → failed' after) :
    p.Keeps world allowed ok' failed' s := by
  refine Program.Keeps.mono hp ?_
  rintro (_ | result) after h
  · exact hfailed after h
  · exact hok result after h

end Attempt

/-! ### Steps that may change the composite -/

namespace Composing

variable {σ α β : Type} {world : World σ} {allowed : Call → σ → Prop}

/-- What is wanted of an end in success, with the composite as it is then, and of an end in
failure. -/
def ends (ok : α → Resource → σ → Prop) (failed : σ → Prop) :
    Except CompositionError α × Resource → σ → Prop
  | (.ok result, composite), s => ok result composite s
  | (.error _, _), s => failed s

/-- A step makes allowed calls only, and ends as wanted, in success or in failure. -/
def Keeps (world : World σ) (allowed : Call → σ → Prop) (ok : α → Resource → σ → Prop)
    (failed : σ → Prop) (p : Composing α) (composite : Resource) (s : σ) : Prop :=
  (p.run composite).Keeps world allowed (ends ok failed) s

variable {ok : α → Resource → σ → Prop} {failed : σ → Prop} {composite : Resource} {s : σ}

theorem keeps_pure {result : α} :
    (pure result : Composing α).Keeps world allowed ok failed composite s ↔
      ok result composite s := Iff.rfl

theorem keeps_throw {e : CompositionError} :
    (throw e : Composing α).Keeps world allowed ok failed composite s ↔ failed s := Iff.rfl

theorem keeps_bind {p : Composing β} {f : β → Composing α} :
    (p >>= f).Keeps world allowed ok failed composite s ↔
      p.Keeps world allowed (fun result composite after =>
        (f result).Keeps world allowed ok failed composite after) failed composite s := by
  refine Program.keeps_bind.trans ⟨fun h => h.mono ?_, fun h => h.mono ?_⟩ <;>
    · rintro ⟨_ | _, _⟩ after h <;> exact h

theorem keeps_get {ok : Resource → Resource → σ → Prop} :
    (get : Composing Resource).Keeps world allowed ok failed composite s ↔
      ok composite composite s := Iff.rfl

theorem keeps_setComposite {ok : Unit → Resource → σ → Prop} {c : Resource} :
    (setComposite c).Keeps world allowed ok failed composite s ↔ ok () c s := Iff.rfl

theorem keeps_during {stage : Stage} {p : Attempt α} :
    (during stage p).Keeps world allowed ok failed composite s ↔
      p.Keeps world allowed (ok · composite ·) failed s := by
  refine Program.keeps_bind.trans ⟨fun h => Program.Keeps.mono h ?_, fun h => Program.Keeps.mono h ?_⟩ <;>
    · rintro (_ | _) after h <;> exact h

theorem Keeps.weaken {allowed' : Call → σ → Prop} {p : Composing α}
    (hp : p.Keeps world allowed ok failed composite s)
    (h : ∀ request s, allowed request s → allowed' request s) :
    p.Keeps world allowed' ok failed composite s := Program.Keeps.weaken hp h

theorem keeps_rendering {render : ExceptT CompositionError (StateT Sides Program) Unit}
    {composed : Resource} {ok : Except CompositionError Resource → Resource → σ → Prop} :
    (rendering render composed).Keeps world allowed ok failed composite s ↔
      (render.run ⟨composite, composed⟩).Keeps world allowed (fun end_ after =>
        ok (end_.1.map fun _ => end_.2.composed) end_.2.composite after) s :=
  Program.keeps_bind

/-- The composed resource is rendered: if that fails, nothing changes. -/
theorem keeps_renderComposed {t : Template} {environment : Json} {before : Resource}
    {ok : Except CompositionError Resource → Resource → σ → Prop}
    (h : (t.render environment composite before).Keeps world allowed
      (fun composed after => ok (.ok composed) composite after)
      (fun after => ∀ e, ok (.error e) composite after) s) :
    (rendering (Renderer.composed t environment) before).Keeps world allowed ok failed
      composite s := by
  refine keeps_rendering.mpr (Program.keeps_bind.mpr (Program.Keeps.mono h ?_))
  rintro (e | composed) after hend
  · exact hend e
  · exact hend

/-- The composite is rendered: if that fails, nothing changes. -/
theorem keeps_renderComposite {t : Template} (environment : Json) {composed : Resource}
    {ok : Except CompositionError Resource → Resource → σ → Prop}
    (hok : ∀ c, Patch.applyToComposite t.patches composed composite = .ok c →
      ok (.ok composed) c s)
    (herror : ∀ e, ok (.error e) composite s) :
    (rendering (Renderer.composite t environment) composed).Keeps world allowed ok failed
      composite s := by
  refine keeps_rendering.mpr ?_
  simp only [Renderer.composite, ExceptT.run]
  cases h : Patch.applyToComposite t.patches composed composite with
  | error e => exact herror e
  | ok c => exact hok c h

theorem Keeps.mono {ok' : α → Resource → σ → Prop} {failed' : σ → Prop} {p : Composing α}
    (hp : p.Keeps world allowed ok failed composite s)
    (hok : ∀ result composite after, ok result composite after → ok' result composite after)
    (hfailed : ∀ after, failed after → failed' after) :
    p.Keeps world allowed ok' failed' composite s := by
  refine Program.Keeps.mono hp ?_
  rintro ⟨_ | result, composite⟩ after h
  · exact hfailed after h
  · exact hok result composite after h

end Composing

end ResourceComposition
