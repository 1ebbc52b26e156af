import ResourceComposition.Proofs.Completion
import ResourceComposition.Proofs.Ledger

/-!
# What becomes of stored objects

A record of exchanges leads a world from one state to another. `Trace` says so, and what the single
exchanges keep is kept by the whole record.

`Memory.Obeys` is a store in memory that may refuse any call, and that may make up names as it likes.
An exchange with such a store changes what is stored under one key at most, and
`Exchange.changedKey?` says which.
-/

namespace ResourceComposition

/-! ### Records of exchanges -/

/-- Exchanges lead a world from one state to another. -/
inductive Trace {σ : Type} (world : World σ) : σ → List Exchange → σ → Prop where
  /-- Nothing happens. -/
  | nil {s : σ} : Trace world s [] s
  /-- A call gets its reply, and then come the others. -/
  | cons {exchange : Exchange} {s after last : σ} {rest : List Exchange} :
      world exchange.request s exchange.reply after → Trace world after rest last →
      Trace world s (exchange :: rest) last

section

variable {σ α : Type} {world : World σ} {s last : σ} {log : List Exchange}

theorem Program.Reaches.trace {p q : Program α} (h : Reaches world p s log q last) :
    Trace world s log last := by
  induction h with
  | here => exact .nil
  | call hreply _ ih => exact .cons hreply ih

namespace Trace

theorem of_append {early late : List Exchange} (h : Trace world s (early ++ late) last) :
    ∃ middle, Trace world s early middle ∧ Trace world middle late last := by
  induction early generalizing s with
  | nil => exact ⟨s, .nil, h⟩
  | cons exchange rest ih =>
    cases h with
    | cons hreply hrest =>
      obtain ⟨middle, hearly, hlate⟩ := ih hrest
      exact ⟨middle, .cons hreply hearly, hlate⟩

/-- What holds of the first state and is kept by each exchange holds of the last state, and of the
states before each exchange. -/
theorem invariant {I : σ → Prop} (h : Trace world s log last) (hs : I s)
    (hstep : ∀ exchange ∈ log, ∀ s after, I s → world exchange.request s exchange.reply after →
      I after) :
    I last ∧ ∀ exchange ∈ log, ∃ s after, I s ∧ world exchange.request s exchange.reply after := by
  induction h with
  | nil => exact ⟨hs, by simp⟩
  | @cons exchange s after last rest hreply _ ih =>
    obtain ⟨hfirst, hothers⟩ := List.forall_mem_cons.mp hstep
    obtain ⟨hlast, hall⟩ := ih (hfirst s after hs hreply) hothers
    exact ⟨hlast, List.forall_mem_cons.mpr ⟨⟨s, after, hs, hreply⟩, hall⟩⟩

end Trace

end

/-! ### Stores that make up names as they like -/

/-- The key under which an exchange may have changed what is stored, if there is one. -/
def Exchange.changedKey? : Exchange → Option ObjectKey
  | ⟨.create _ false, .ok created⟩ => some created.key
  | ⟨.update object, _⟩ | ⟨.patch object _, _⟩ | ⟨.patchStatus object _, _⟩
  | ⟨.delete object, _⟩ => some object.key
  | _ => none

namespace Memory

/-- How a store in memory may reply to a call. -/
inductive Obeys : World Memory where
  /-- The call is refused, and nothing happens. -/
  | refused {request : Call} {m : Memory} (cause : Error) : Obeys request m (request.refused cause) m
  /-- A dry run tells some name. -/
  | told {object : Resource} {m : Memory} (name : String) : Obeys (.create object true) m
      (.ok { object with metadata := { object.metadata with name := some name } }) m
  /-- The store replies as it does when nothing fails. -/
  | served {request : Call} {m : Memory} :
      Obeys request m (handler.reply request m).1 (handler.reply request m).2

theorem obeys_handler {request : Call} {m after : Memory} {reply : request.Reply}
    (h : handler.world request m reply after) : Obeys request m reply after := by
  obtain ⟨rfl, rfl⟩ := Prod.mk.inj h
  exact .served

variable {m after : Memory} {object : Resource} {patch form : Json} {key : ObjectKey}

@[simp] theorem key_fresh (object : Resource) : (fresh object).key = object.key := rfl

theorem lookup?_of_objects (h : after.objects = m.objects) (key : ObjectKey) :
    after.lookup? key = m.lookup? key := by
  rw [lookup?, h, lookup?]

theorem objects_named (object : Resource) (m : Memory) : (m.named object).2.objects = m.objects := by
  unfold named
  split
  · split <;> rfl
  · rfl

/-- What is read stands in the store. -/
theorem of_get {reference : Reference} {reply : Except Error (Option Resource)}
    (h : Obeys (.get reference) m reply after) :
    after = m ∧ ∀ r, reply = .ok (some r) →
      ∃ form, m.lookup? reference.key = some form ∧ Resource.ofJson form = .ok r := by
  cases h with
  | refused cause => exact ⟨rfl, by simp [Call.refused]⟩
  | served =>
    refine ⟨rfl, fun r hr => ?_⟩
    simp only [handler, get] at hr
    cases hlookup : m.lookup? reference.key with
    | none => simp [hlookup] at hr
    | some form =>
      refine ⟨form, rfl, ?_⟩
      cases hread : Resource.ofJson form <;> simp_all [Except.map]

/-- An object with a name is created if nothing is stored under its key. -/
theorem of_create {created : Resource} (hnamed : object.metadata.unnamed = false)
    (h : Obeys (.create object false) m (.ok created) after) :
    m.lookup? object.key = none ∧ created = fresh object ∧
      after = m.put object.key (fresh object).encode := by
  generalize hreply : (Except.ok created : Except Error Resource) = reply at h
  cases h with
  | refused cause => cases hreply
  | served =>
    simp only [handler, create, named, hnamed, Bool.false_eq_true, if_false] at hreply ⊢
    split at hreply
    · cases hreply
    · next hnone =>
      rw [if_neg hnone]
      exact ⟨by simpa using hnone, Except.ok.inj hreply, rfl⟩

/-- The form of an object that is patched is merged with the patch. -/
theorem of_patch {stored : Resource} (h : Obeys (.patch object patch) m (.ok stored) after) :
    ∃ form, m.lookup? object.key = some form ∧
      Resource.ofJson (versioned (form.mergePatch (withoutStatus patch))) = .ok stored ∧
      after = m.put object.key (versioned (form.mergePatch (withoutStatus patch))) := by
  generalize hreply : (Except.ok stored : Except Error Resource) = reply at h
  cases h with
  | refused cause => cases hreply
  | served =>
    simp only [handler, write] at hreply ⊢
    cases hlookup : m.lookup? object.key with
    | none => simp [hlookup] at hreply
    | some form => exact ⟨form, rfl, by simp_all, rfl⟩

/-- The form of an object whose status is patched is merged with the status of the patch. -/
theorem of_patchStatus {stored : Resource}
    (h : Obeys (.patchStatus object patch) m (.ok stored) after) :
    ∃ form, m.lookup? object.key = some form ∧
      Resource.ofJson (versioned (form.mergePatch (statusOnly patch))) = .ok stored ∧
      after = m.put object.key (versioned (form.mergePatch (statusOnly patch))) := by
  generalize hreply : (Except.ok stored : Except Error Resource) = reply at h
  cases h with
  | refused cause => cases hreply
  | served =>
    simp only [handler, write] at hreply ⊢
    cases hlookup : m.lookup? object.key with
    | none => simp [hlookup] at hreply
    | some form => exact ⟨form, rfl, by simp_all, rfl⟩

/-- An event that is published leaves the store as it is. -/
theorem of_publish {about : Reference} {event : Event} {action : String}
    {reply : (Call.publish about event action).Reply}
    (h : Obeys (.publish about event action) m reply after) : after = m := by
  cases h <;> rfl

/-- What is stored under other keys than the one that an exchange changes stays. -/
theorem Obeys.lookup?_eq {request : Call} {reply : request.Reply} (h : Obeys request m reply after)
    (hkey : Exchange.changedKey? ⟨request, reply⟩ ≠ some key) :
    after.lookup? key = m.lookup? key := by
  cases h with
  | refused cause => rfl
  | told name => rfl
  | served =>
    have hwrite (object : Resource) (change : Json → Json) (hne : object.key ≠ key) :
        (m.write object change).2.lookup? key = m.lookup? key := by
      unfold write
      split
      · rfl
      · exact (lookup?_put ..).trans (if_neg (Ne.symm hne))
    cases request with
    | get reference => rfl
    | publish about event action => rfl
    | delete object =>
      exact (lookup?_remove ..).trans (if_neg fun heq => hkey (by simp [Exchange.changedKey?, heq]))
    | update object =>
      exact hwrite object _ fun heq => hkey (by simp [Exchange.changedKey?, heq])
    | patch object patch =>
      exact hwrite object _ fun heq => hkey (by simp [Exchange.changedKey?, heq])
    | patchStatus object patch =>
      exact hwrite object _ fun heq => hkey (by simp [Exchange.changedKey?, heq])
    | create object dryRun =>
      have hnamed := lookup?_of_objects (objects_named object m) key
      simp only [handler, create] at hkey ⊢
      cases hname : m.named object with
      | mk result named =>
        rw [hname] at hnamed
        cases result with
        | error e => exact hnamed
        | ok created =>
          cases dryRun with
          | true => exact hnamed
          | false =>
            simp only [hname, Bool.false_eq_true, if_false] at hkey ⊢
            split
            · exact hnamed
            · next hnone =>
              simp only [if_neg hnone] at hkey
              refine (lookup?_put ..).trans ((if_neg fun heq => hkey ?_).trans hnamed)
              simp [Exchange.changedKey?, heq]

/-- What is stored under a key stays as long as no exchange changes it. -/
theorem lookup?_of_trace {log : List Exchange} (h : Trace Obeys m log after)
    (hkey : ∀ exchange ∈ log, exchange.changedKey? ≠ some key) :
    after.lookup? key = m.lookup? key :=
  (h.invariant (I := fun s => s.lookup? key = m.lookup? key) rfl
    fun exchange hmem _ _ hs hreply => (hreply.lookup?_eq (hkey exchange hmem)).trans hs).1

end Memory

end ResourceComposition
