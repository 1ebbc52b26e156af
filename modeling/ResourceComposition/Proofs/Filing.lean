import ResourceComposition.Proofs.Conditions
import ResourceComposition.Proofs.Course
import ResourceComposition.Proofs.Merging
import ResourceComposition.Proofs.Storage

/-!
# Objects under their own keys

A store keeps objects by type, namespace and name. `Memory.Filed` says that it does so well: what is
read from an object has the key under which the object lies, and the fields of the object are in
order. `Memory.Filing` is a store in memory that may refuse any call, and that stays so. A store in
memory is of this kind to a pass whose templates leave types alone (`Composition.reconcile_filing`).

In such a store a composite that was written is found again under its own key, with the status that it
was given: `Rests` says so, and a composition that succeeds leaves its composite that way, whatever
its collaborators do.
-/

namespace ResourceComposition

namespace Resource

/-- A field of the body stands in the form. -/
theorem field?_encode_of_sorted {r : Resource} {name : String} (h : r.body.Sorted)
    (hname : name ∉ headerNames) : r.encode.field? name = r.body.get? name := by
  simp only [headerNames, List.mem_cons, List.not_mem_nil, or_false, not_or] at hname
  unfold encode
  cases r.typeMeta <;>
    simp [Dict.get?_insertAll h, Dict.get?_cons, Ne.symm hname.1, Ne.symm hname.2.1,
      Ne.symm hname.2.2]

/-- Resources with the same status have the same conditions. -/
theorem conditions_congr {r r' : Resource} (h : r.body.get? "status" = r'.body.get? "status") :
    r.conditions = r'.conditions := by
  have hfollow : (Json.object r.body).follow? [.field "status", .field "conditions"] =
      (Json.object r'.body).follow? [.field "status", .field "conditions"] := by
    rw [Json.follow?, Json.follow?, h]
  simp only [conditions, get?, Json.get?, parse_conditionsPath, bind, Except.bind, hfollow]

end Resource

namespace Memory

open Resource

variable {m after : Memory} {form : Json} {key : ObjectKey} {r object : Resource}

/-- A form is in order, and what is read from it has the key under which it lies. -/
def FiledAt (key : ObjectKey) (form : Json) : Prop :=
  form.Ordered ∧ ((ofJson form).toOption.any fun r => r.key = key) = true

instance : Decidable (FiledAt key form) := inferInstanceAs (Decidable (_ ∧ _))

/-- All stored forms lie where they belong. -/
def Filed (m : Memory) : Prop := ∀ entry ∈ m.objects, FiledAt entry.1 entry.2

instance : Decidable m.Filed := inferInstanceAs (Decidable (∀ entry ∈ m.objects, _))

/-- What a call creates, if it does, has the fields of its body in order. -/
def CreatesInOrder : Call → Prop
  | .create object _ => object.body.Sorted
  | _ => True

/-- How a store in memory may reply in which all forms lie where they belong and stay there. -/
inductive Filing : World Memory where
  /-- The call is refused, and nothing happens. -/
  | refused {request : Call} {m : Memory} (cause : Error) : Filing request m (request.refused cause) m
  /-- A dry run tells some name. -/
  | told {object : Resource} {m : Memory} (name : String) : Filing (.create object true) m
      (.ok { object with metadata := { object.metadata with name := some name } }) m
  /-- The store replies as it does when nothing fails, and all forms stay where they belong. -/
  | served {request : Call} {m : Memory} (hcreates : CreatesInOrder request)
      (hfiled : m.Filed → (handler.reply request m).2.Filed) :
      Filing request m (handler.reply request m).1 (handler.reply request m).2

theorem Filing.obeys {request : Call} {reply : request.Reply} (h : Filing request m reply after) :
    Obeys request m reply after := by
  cases h with
  | refused cause => exact .refused cause
  | told name => exact .told name
  | served => exact .served

theorem Filing.filed {request : Call} {reply : request.Reply} (h : Filing request m reply after)
    (hm : m.Filed) : after.Filed := by
  cases h with
  | refused cause => exact hm
  | told name => exact hm
  | served _ hfiled => exact hfiled hm

theorem Filed.lookup? (hm : m.Filed) (h : m.lookup? key = some form) :
    form.Ordered ∧ ∃ r, ofJson form = .ok r ∧ r.key = key := by
  obtain ⟨before, after, hobjects, -⟩ := List.lookup_eq_some_iff.mp h
  obtain ⟨hordered, hread⟩ := hm (key, form) (by simp [hobjects])
  obtain ⟨r, hr, hkey⟩ := (Option.any_eq_true ..).mp hread
  exact ⟨hordered, r, Except.toOption_eq_some.mp hr, by simpa using hkey⟩

theorem filed_of_reaches {α : Type} {p q : Program α} {log : List Exchange} (hm : m.Filed)
    (h : Program.Reaches Filing p m log q after) : after.Filed :=
  (h.trace.invariant hm fun _ _ _ _ hs hreply => hreply.filed hs).1

/-! ### A composite at rest -/

/-- A resource is stored under its key, with the status that it has. -/
def Rests (r : Resource) (m : Memory) : Prop :=
  ∃ form, m.lookup? r.key = some form ∧ form.field? "status" = r.body.get? "status"

/-- What is read from a store where it belongs rests there. -/
theorem rests_of_read (hm : m.Filed) (hform : m.lookup? key = some form)
    (hread : ofJson form = .ok r) : Rests r m := by
  obtain ⟨hordered, r', hread', rfl⟩ := hm.lookup? hform
  obtain rfl := Except.ok.inj (hread'.symm.trans hread)
  exact ⟨form, hform, ((of_ofJson hread hordered.sorted).2.2.body "status"
    (by simp [headerNames])).symm⟩

/-- Giving an object a name leaves all else alone. -/
theorem eq_of_named {created : Resource} (h : (m.named object).1 = .ok created) :
    ∃ name, created = { object with metadata := { object.metadata with name := name } } := by
  unfold named at h
  split at h
  · split at h
    · cases h
    · exact ⟨_, (Except.ok.inj h).symm⟩
  · exact ⟨object.metadata.name, (Except.ok.inj h).symm⟩

/-- What was created rests in the store. -/
theorem rests_of_create (h : Filing (.create object false) m (.ok r) after) : Rests r after := by
  generalize hreply : (Except.ok r : Except Error Resource) = reply at h
  cases h with
  | refused cause => cases hreply
  | served hsorted =>
    simp only [handler, create] at hreply ⊢
    cases hnamed : m.named object with
    | mk named after =>
      cases named with
      | error e => simp [hnamed] at hreply
      | ok created =>
        obtain ⟨name, rfl⟩ := eq_of_named (congrArg Prod.fst hnamed)
        simp only [hnamed, Bool.false_eq_true, if_false] at hreply ⊢
        split at hreply
        · cases hreply
        · next hnone =>
          obtain rfl := Except.ok.inj hreply
          rw [if_neg hnone]
          refine ⟨_, (lookup?_put ..).trans (if_pos rfl), ?_⟩
          exact field?_encode_of_sorted hsorted (by simp [headerNames])

/-- What was patched rests in the store. -/
theorem rests_of_patch {patch : Json} (hm : m.Filed)
    (h : Filing (.patch object patch) m (.ok r) after) : Rests r after := by
  obtain ⟨form, -, hread, hafter⟩ := of_patch h.obeys
  exact rests_of_read (h.filed hm) (hafter ▸ (lookup?_put ..).trans (if_pos rfl)) hread

/-- What had its status patched rests in the store. -/
theorem rests_of_patchStatus {patch : Json} (hm : m.Filed)
    (h : Filing (.patchStatus object patch) m (.ok r) after) : Rests r after := by
  obtain ⟨form, -, hread, hafter⟩ := of_patchStatus h.obeys
  exact rests_of_read (h.filed hm) (hafter ▸ (lookup?_put ..).trans (if_pos rfl)) hread

variable {log : List Exchange}

/-- What was applied rests in the store. -/
theorem rests_of_apply (hm : m.Filed) (h : r.apply.Succeeds Filing m log object after) :
    Rests object after := by
  have hcreate {m : Memory} {log : List Exchange}
      (h : r.createStored.Succeeds Filing m log object after) : Rests object after :=
    rests_of_create (Program.reaches_ask.mp (Attempt.succeeds_asking.mp h)).1
  unfold Resource.apply at h
  split at h
  · exact hcreate h
  · obtain ⟨object?, middle, early, late, rfl, hget, hrest⟩ := Attempt.succeeds_bind.mp h
    cases object? with
    | none => exact hcreate hrest
    | some stored =>
      exact rests_of_patch (filed_of_reaches hm hget)
        (Program.reaches_ask.mp (Attempt.succeeds_asking.mp hrest)).1

end Memory

namespace Composition

open Composing Memory

variable {c : Collaborators} {request : CompositionRequest} {composite composite' : Resource}
  {m after : Memory} {log : List Exchange}

theorem rests_of_persistComposite (hm : m.Filed)
    (h : persistComposite.Succeeds Filing composite m log () composite' after) :
    Rests composite' after := by
  obtain ⟨written, middle, _, _, rfl, happly, ⟨rfl, rfl, -⟩ | ⟨status, -, -, hpatch⟩⟩ :=
    succeeds_persistComposite h
  · exact rests_of_apply hm happly
  · exact rests_of_patchStatus (filed_of_reaches hm happly) hpatch

/-- A composition that succeeds leaves its composite at rest, whatever the collaborators do: the last
thing that it does is to write the composite. -/
theorem rests_of_compose {outcome : Outcome} (hm : m.Filed)
    (h : (compose c request).Succeeds Filing composite m log outcome composite' after) :
    after.Filed ∧ Rests composite' after := by
  refine ⟨filed_of_reaches hm h, ?_⟩
  rw [compose_eq] at h
  obtain ⟨renditions, planned, _, _, _, rfl, hplan, hcarry⟩ := succeeds_bind.mp h
  obtain ⟨_, _, _, _, _, _, _, _, rfl, hfirst, hsettle, hlast, -⟩ := succeeds_carryOut hcarry
  have hplanned := filed_of_reaches hm hplan
  have hsettled := filed_of_reaches (filed_of_reaches hplanned hfirst) hsettle
  exact rests_of_persistComposite hsettled hlast

end Composition

end ResourceComposition
