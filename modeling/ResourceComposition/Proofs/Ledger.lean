import ResourceComposition.Proofs.Execution
import ResourceComposition.Store.Memory

/-!
# Stores that may fail and make up names

A ledger is a store with a record of the names that it gave out in dry runs. It replies to each
call as the store in memory does, with two exceptions. It may refuse any call, and then nothing
happens; only it does not say of an object that it was not found by way of a refusal, since such an
answer counts as news about the object. And the name that a dry run tells is any name that was never
given out and that no object has.

What such a store can reply is put down once for each kind of call.
-/

namespace ResourceComposition

namespace Memory

variable {m : Memory} {key other : ObjectKey} {form : Json}

theorem lookup?_put (key other : ObjectKey) (form : Json) (m : Memory) :
    (m.put key form).lookup? other = if other = key then some form else m.lookup? other := by
  unfold lookup? put
  rw [List.lookup_cons]
  by_cases h : other = key
  · simp [h]
  · rw [if_neg h, beq_false_of_ne h]
    induction m.objects with
    | nil => rfl
    | cons entry rest ih =>
      obtain ⟨k, v⟩ := entry
      by_cases hk : k = key
      · subst hk
        simpa [List.lookup_cons, beq_false_of_ne h] using ih
      · simp only [List.filter_cons, hk, ne_eq, not_false_eq_true, decide_true, if_true,
          List.lookup_cons]
        cases other == k with
        | true => rfl
        | false => exact ih

theorem lookup?_remove (key other : ObjectKey) (m : Memory) :
    (m.remove key).lookup? other = if other = key then none else m.lookup? other := by
  unfold lookup? remove
  induction m.objects with
  | nil => simp
  | cons entry rest ih =>
    obtain ⟨k, v⟩ := entry
    by_cases hk : k = key
    · subst hk
      by_cases h : other = k
      · subst h
        simpa using ih
      · simpa [List.lookup_cons, beq_false_of_ne h, h] using ih
    · by_cases h : other = k
      · subst h
        simp [hk]
      · simpa [hk, List.lookup_cons, beq_false_of_ne h] using ih

end Memory

/-- A store with the names that it gave out. -/
structure Ledger where
  /-- The store. -/
  memory : Memory
  /-- The names that were given out in dry runs. -/
  given : List String := []

namespace Ledger

/-- The ledger after a form was stored. -/
def put (key : ObjectKey) (form : Json) (s : Ledger) : Ledger :=
  { s with memory := s.memory.put key form }

/-- The ledger after an object was removed. -/
def remove (key : ObjectKey) (s : Ledger) : Ledger := { s with memory := s.memory.remove key }

/-- The ledger after a name was given out. -/
def give (name : String) (s : Ledger) : Ledger := { s with given := name :: s.given }

/-- The form that is stored under a key. -/
def lookup? (s : Ledger) (key : ObjectKey) : Option Json := s.memory.lookup? key

/-- The resource that is stored under a key, if it can be read. -/
def stored? (s : Ledger) (key : ObjectKey) : Option Resource :=
  (s.lookup? key).bind fun form => (Resource.ofJson form).toOption

theorem stored?_eq_some {s : Ledger} {key : ObjectKey} {r : Resource} :
    s.stored? key = some r ↔ ∃ form, s.lookup? key = some form ∧ Resource.ofJson form = .ok r := by
  unfold stored?
  exact Option.bind_eq_some_iff.trans
    (exists_congr fun form => and_congr_right fun _ => Except.toOption_eq_some)

theorem lookup?_put (key other : ObjectKey) (form : Json) (s : Ledger) :
    (s.put key form).lookup? other = if other = key then some form else s.lookup? other :=
  Memory.lookup?_put key other form s.memory

theorem lookup?_remove (key other : ObjectKey) (s : Ledger) :
    (s.remove key).lookup? other = if other = key then none else s.lookup? other :=
  Memory.lookup?_remove key other s.memory

/-- Names may have been given out, and nothing else happened. -/
structure Extends (s after : Ledger) : Prop where
  /-- The store is the same. -/
  memory : after.memory = s.memory
  /-- No name is forgotten. -/
  given : ∀ name ∈ s.given, name ∈ after.given

theorem Extends.refl (s : Ledger) : s.Extends s := ⟨rfl, fun _ => id⟩

theorem Extends.trans {s middle after : Ledger} (h : s.Extends middle) (h' : middle.Extends after) :
    s.Extends after :=
  ⟨h'.memory.trans h.memory, fun name hname => h'.given name (h.given name hname)⟩

theorem Extends.lookup? {s after : Ledger} (h : s.Extends after) (key : ObjectKey) :
    after.lookup? key = s.lookup? key := by
  rw [Ledger.lookup?, h.memory, Ledger.lookup?]

theorem extends_give (s : Ledger) (name : String) : s.Extends (s.give name) :=
  ⟨rfl, fun _ => List.mem_cons_of_mem _⟩

/-- A call asks what name the server would make up. -/
def AsksName : Call → Prop
  | .create object true => object.metadata.unnamed ∧ object.metadata.generateName.isSome
  | _ => False

/-- A name that was never given out and that no object has. -/
def Fresh (s : Ledger) (name : String) : Prop :=
  name ∉ s.given ∧ ∀ key form, s.lookup? key = some form → key.name ≠ name

/-- How a store may reply to a call. -/
inductive Serves : World Ledger where
  /-- The call is refused, and nothing happens. -/
  | refused {request : Call} {s : Ledger} {cause : Error} :
      (∀ reference, request = .get reference → cause.isNotFound = false) →
      Serves request s (request.refused cause) s
  /-- A fresh name is given out. -/
  | allocated {object : Resource} {s : Ledger} {name : String} :
      AsksName (.create object true) → s.Fresh name →
      Serves (.create object true) s
        (.ok { object with metadata := { object.metadata with name := some name } }) (s.give name)
  /-- The store in memory replies. -/
  | served {request : Call} {s : Ledger} : ¬ AsksName request →
      Serves request s (Memory.handler.reply request s.memory).1
        { s with memory := (Memory.handler.reply request s.memory).2 }

variable {s after : Ledger} {reference : Reference} {object : Resource} {patch : Json}

theorem of_get {reply : Except Error (Option Resource)}
    (h : Serves (.get reference) s reply after) :
    after = s ∧ ((∃ e, reply = .error e ∧ e.isNotFound = false) ∨
      reply = .ok none ∧ s.lookup? reference.key = none ∨
      ∃ form r, reply = .ok (some r) ∧ s.lookup? reference.key = some form ∧
        Resource.ofJson form = .ok r) := by
  cases h with
  | refused hcause => exact ⟨rfl, .inl ⟨_, rfl, hcause _ rfl⟩⟩
  | served _ =>
    refine ⟨rfl, ?_⟩
    simp only [Memory.handler, Memory.get]
    cases hlookup : s.memory.lookup? reference.key with
    | none => exact .inr (.inl ⟨rfl, hlookup⟩)
    | some form =>
      cases hread : Resource.ofJson form with
      | error e =>
        refine .inl ⟨e, by simp [hread, Except.map], ?_⟩
        unfold Resource.ofJson at hread
        cases hdecode : Resource.decode form with
        | ok r => simp [hdecode] at hread
        | error cause =>
          obtain rfl : _ = e := by simpa [hdecode] using hread
          rfl
      | ok r => exact .inr (.inr ⟨form, r, by simp [hread, Except.map], hlookup, hread⟩)

/-- An object is looked for: it is there and can be read, or it is not there, or the search fails. -/
theorem find_keeps {allowed : Call → Ledger → Prop} {ok : Option Resource → Ledger → Prop}
    {failed : Ledger → Prop} {failure : Error → CompositionError}
    (hallowed : allowed (.get reference) s) (hfailed : failed s)
    (hnone : s.lookup? reference.key = none → ok none s)
    (hsome : ∀ form r, s.lookup? reference.key = some form → Resource.ofJson form = .ok r →
      ok (some r) s) :
    (Attempt.find reference failure).Keeps Serves allowed ok failed s := by
  refine Attempt.keeps_find hallowed (fun object? after hreply => ?_) (fun e after hreply hgone => ?_)
    fun e after hreply => (of_get hreply).1 ▸ hfailed
  · obtain ⟨rfl, ⟨e, he, -⟩ | ⟨h, hlookup⟩ | ⟨form, r, h, hlookup, hread⟩⟩ := of_get hreply
    · cases he
    · exact Except.ok.inj h ▸ hnone hlookup
    · exact Except.ok.inj h ▸ hsome form r hlookup hread
  · -- A refusal never says that the object is not there.
    obtain ⟨-, ⟨e', he, hnot⟩ | ⟨h, -⟩ | ⟨_, _, h, -⟩⟩ := of_get hreply
    · simp [Except.error.inj he, hnot] at hgone
    · cases h
    · cases h

/-- A change of a stored form, if it is not refused. -/
theorem of_write {change : Json → Json} {reply : Except Error Resource}
    (h : (reply, after) = ((s.memory.write object change).1,
      { s with memory := (s.memory.write object change).2 })) :
    (after = s ∧ ∃ e, reply = .error e) ∨
      ∃ form, s.lookup? object.key = some form ∧
        reply = Resource.ofJson (Memory.versioned (change form)) ∧
        after = s.put object.key (Memory.versioned (change form)) := by
  obtain ⟨rfl, rfl⟩ := Prod.mk.inj h
  unfold Memory.write
  cases hlookup : s.memory.lookup? object.key with
  | none => exact .inl ⟨rfl, _, rfl⟩
  | some form => exact .inr ⟨form, hlookup, rfl, rfl⟩

theorem of_patch {reply : Except Error Resource} (h : Serves (.patch object patch) s reply after) :
    (after = s ∧ ∃ e, reply = .error e) ∨
      ∃ form, s.lookup? object.key = some form ∧
        reply = Resource.ofJson
          (Memory.versioned (form.mergePatch (Memory.withoutStatus patch))) ∧
        after = s.put object.key
          (Memory.versioned (form.mergePatch (Memory.withoutStatus patch))) := by
  cases h with
  | refused _ => exact .inl ⟨rfl, _, rfl⟩
  | served _ => exact of_write rfl

theorem of_patchStatus {reply : Except Error Resource}
    (h : Serves (.patchStatus object patch) s reply after) :
    (after = s ∧ ∃ e, reply = .error e) ∨
      ∃ form, s.lookup? object.key = some form ∧
        reply = Resource.ofJson (Memory.versioned (form.mergePatch (Memory.statusOnly patch))) ∧
        after = s.put object.key
          (Memory.versioned (form.mergePatch (Memory.statusOnly patch))) := by
  cases h with
  | refused _ => exact .inl ⟨rfl, _, rfl⟩
  | served _ => exact of_write rfl

theorem of_delete {reply : Except Error Unit} (h : Serves (.delete object) s reply after) :
    (after = s ∧ ∃ e, reply = .error e) ∨
      reply = .ok () ∧ after = s.remove object.key := by
  cases h with
  | refused _ => exact .inl ⟨rfl, _, rfl⟩
  | served _ => exact .inr ⟨rfl, rfl⟩

/-- A named object is created if nothing is stored under its key. -/
theorem of_create {reply : Except Error Resource} (hnamed : object.metadata.unnamed = false)
    (h : Serves (.create object false) s reply after) :
    (after = s ∧ ∃ e, reply = .error e) ∨
      s.lookup? object.key = none ∧ reply = .ok (Memory.fresh object) ∧
        after = s.put object.key (Memory.fresh object).encode := by
  cases h with
  | refused _ => exact .inl ⟨rfl, _, rfl⟩
  | served _ =>
    simp only [Memory.handler, Memory.create, Memory.named, hnamed]
    cases hlookup : s.memory.lookup? object.key with
    | some form => exact .inl ⟨by simp [hlookup], Memory.alreadyExists, by simp [hlookup]⟩
    | none =>
      exact .inr ⟨hlookup, by simp [hlookup], by simp [hlookup, put]⟩

/-- A dry run of an object without a name tells a fresh one, or fails. -/
theorem of_dryRun {reply : Except Error Resource} (hunnamed : object.metadata.unnamed = true)
    (h : Serves (.create object true) s reply after) :
    (after = s ∧ ∃ e, reply = .error e) ∨
      ∃ name, s.Fresh name ∧ after = s.give name ∧
        reply = .ok { object with metadata := { object.metadata with name := some name } } := by
  cases h with
  | refused _ => exact .inl ⟨rfl, _, rfl⟩
  | allocated _ hfresh => exact .inr ⟨_, hfresh, rfl, rfl⟩
  | served hasks =>
    refine .inl ?_
    cases hname : object.metadata.generateName with
    | some beginning => exact absurd ⟨hunnamed, by simp [hname]⟩ hasks
    | none => simp [Memory.handler, Memory.create, Memory.named, hunnamed, hname]

/-! ### A ledger at work -/

/-- The name that a ledger makes up next. -/
def nextName (beginning : String) (s : Ledger) : String :=
  beginning ++ Memory.counterText (s.given.length + 1)

/-- Whether a name was never given out and no object has it. -/
def isFresh (s : Ledger) (name : String) : Bool :=
  !s.given.contains name && s.memory.objects.all fun entry => entry.1.name ≠ name

/-- A ledger that refuses nothing, as long as the names that it makes up are fresh. -/
def handler : Handler Ledger where
  reply
    | .create object true, s =>
      match object.metadata.unnamed, object.metadata.generateName with
      | true, some beginning =>
        let name := s.nextName beginning
        if s.isFresh name then
          (.ok { object with metadata := { object.metadata with name := some name } }, s.give name)
        else (.error Memory.invalid, s)
      | _, _ =>
        let (reply, after) := Memory.handler.reply (.create object true) s.memory
        (reply, { s with memory := after })
    | request, s =>
      let (reply, after) := Memory.handler.reply request s.memory
      (reply, { s with memory := after })

theorem fresh_of_isFresh {name : String} (h : s.isFresh name = true) : s.Fresh name := by
  simp only [isFresh, Bool.and_eq_true, Bool.not_eq_true', List.contains_eq_mem,
    decide_eq_false_iff_not, List.all_eq_true, decide_eq_true_eq] at h
  refine ⟨h.1, fun key form hform heq => ?_⟩
  obtain ⟨before, rest, hobjects, -⟩ := List.lookup_eq_some_iff.mp hform
  exact h.2 (key, form) (by simp [hobjects]) heq

/-- What the ledger does is what a store may do. -/
theorem serves_handler {request : Call} {reply : request.Reply}
    (h : handler.world request s reply after) : Serves request s reply after := by
  have hserved {request : Call} {reply : request.Reply} (hasks : ¬ AsksName request)
      (h : ((Memory.handler.reply request s.memory).1,
        { s with memory := (Memory.handler.reply request s.memory).2 }) = (reply, after)) :
      Serves request s reply after := by
    obtain ⟨rfl, rfl⟩ := Prod.mk.inj h
    exact .served hasks
  cases request with
  | create object dryRun =>
    cases dryRun with
    | false => exact hserved id h
    | true =>
      simp only [Handler.world, handler] at h
      split at h
      · next beginning hunnamed hname =>
        have hasks : AsksName (.create object true) := ⟨hunnamed, by simp [hname]⟩
        split at h
        · next hfresh =>
          obtain ⟨rfl, rfl⟩ := Prod.mk.inj h
          exact .allocated hasks (fresh_of_isFresh hfresh)
        · obtain ⟨rfl, rfl⟩ := Prod.mk.inj h
          change Serves (.create object true) s ((Call.create object true).refused Memory.invalid) s
          exact .refused nofun
      · next hnot =>
        refine hserved (fun hasks => ?_) h
        obtain ⟨beginning, hname⟩ := Option.isSome_iff_exists.mp hasks.2
        exact hnot beginning hasks.1 hname
  | _ => exact hserved id h

end Ledger

end ResourceComposition
