import ResourceComposition.Proofs.Conditions
import ResourceComposition.Proofs.Traversal

/-!
# Conditions that are set

A condition that is set comes in place of the first of its type, and keeps the time of that one if the
status is the same; without any of its type it comes at the end (`Condition.Upserted`). All conditions
are stamped when they are written, and stamping first makes no difference
(`Condition.stamped_upsert`), so that this can be said of the list as it was read.

What is written goes to `status.conditions` alone (`Resource.SameButConditions`). If the first
condition of the type says the same already nothing is written, and what was just set says the same as
itself, so that setting it again changes nothing.
-/

namespace ResourceComposition

namespace Condition

variable {now : Instant} {new old : Condition} {conditions updated : List Condition}

/-- What becomes of a list of conditions when a new one is put into it. -/
inductive Upserted (new : Condition) : List Condition → List Condition → Prop where
  /-- The first of its type has the same status, and its time is kept. -/
  | kept (before after : List Condition) {old : Condition}
      (hbefore : ∀ d ∈ before, d.type ≠ new.type) (htype : old.type = new.type)
      (hstatus : old.status = new.status) :
      Upserted new (before ++ old :: after)
        (before ++ { new with lastTransition := old.lastTransition } :: after)
  /-- The first of its type has another status. -/
  | replaced (before after : List Condition) {old : Condition}
      (hbefore : ∀ d ∈ before, d.type ≠ new.type) (htype : old.type = new.type)
      (hstatus : old.status ≠ new.status) :
      Upserted new (before ++ old :: after) (before ++ new :: after)
  /-- There is none of its type. -/
  | appended {conditions : List Condition} (hall : ∀ d ∈ conditions, d.type ≠ new.type) :
      Upserted new conditions (conditions ++ [new])

theorem Upserted.cons (hold : old.type ≠ new.type) (h : Upserted new conditions updated) :
    Upserted new (old :: conditions) (old :: updated) := by
  cases h with
  | kept before after hbefore htype hstatus =>
    exact .kept (old :: before) after (List.forall_mem_cons.mpr ⟨hold, hbefore⟩) htype hstatus
  | replaced before after hbefore htype hstatus =>
    exact .replaced (old :: before) after (List.forall_mem_cons.mpr ⟨hold, hbefore⟩) htype hstatus
  | appended hall => exact .appended (List.forall_mem_cons.mpr ⟨hold, hall⟩)

theorem upsert_upserted (new : Condition) (conditions : List Condition) :
    Upserted new conditions (new.upsert conditions) := by
  induction conditions with
  | nil => exact .appended nofun
  | cons old rest ih =>
    rw [upsert]
    split
    · next htype =>
      unfold replacing
      split
      · next hstatus => exact .kept [] rest nofun htype hstatus
      · next hstatus => exact .replaced [] rest nofun htype hstatus
    · next htype => exact ih.cons htype

theorem stamped_replacing (now : Instant) (new old : Condition) :
    (new.replacing old).stamped now = (new.stamped now).replacing (old.stamped now) := by
  by_cases hstatus : old.status = new.status <;> simp [replacing, stamped, hstatus]

/-- Conditions can as well be stamped before a new one is put in. -/
theorem stamped_upsert (now : Instant) (new : Condition) (conditions : List Condition) :
    (new.upsert conditions).map (stamped now) =
      (new.stamped now).upsert (conditions.map (stamped now)) := by
  induction conditions with
  | nil => rfl
  | cons old rest ih =>
    have htype (d : Condition) : (d.stamped now).type = d.type := rfl
    rw [List.map_cons, upsert, upsert, htype, htype]
    split
    · rw [List.map_cons, stamped_replacing]
    · rw [List.map_cons, ih]

/-- The first condition of a type says what another one says. -/
def FirstEquivalent (c : Condition) (conditions : List Condition) : Prop :=
  ∃ before first after, conditions = before ++ first :: after ∧
    (∀ d ∈ before, d.type ≠ c.type) ∧ first.equivalent c = true

theorem firstEquivalent_iff : new.FirstEquivalent conditions ↔
    (conditions.find? fun d => decide (d.type = new.type)).any (·.equivalent new) = true := by
  simp only [Option.any_eq_true, List.find?_eq_some_iff_append, FirstEquivalent]
  constructor
  · rintro ⟨before, first, after, rfl, hbefore, hsame⟩
    have htype : first.type = new.type := by
      simp only [equivalent, decide_eq_true_eq] at hsame
      exact hsame.1
    exact ⟨first, ⟨by simpa using htype, before, after, rfl, by simpa using hbefore⟩, hsame⟩
  · rintro ⟨first, ⟨-, before, after, rfl, hbefore⟩, hsame⟩
    exact ⟨before, first, after, rfl, by simpa using hbefore, hsame⟩

/-- What conditions say does not depend on their times. -/
theorem firstEquivalent_stamped :
    new.FirstEquivalent (conditions.map (stamped now)) ↔ new.FirstEquivalent conditions := by
  rw [firstEquivalent_iff, firstEquivalent_iff, List.find?_map, Option.any_map]
  rfl

end Condition

namespace Resource

variable {now : Instant} {c : Condition} {r r' : Resource}

/-! ### In place -/

/-- What goes on after a step runs from the state that the step leaves, if it succeeds. -/
theorem run_bind_ok {α β ε σ : Type} {first : ExceptT ε (StateM σ) α} {s after : σ} {a : α}
    (h : first.run.run s = (.ok a, after)) (next : α → ExceptT ε (StateM σ) β) :
    (first >>= next).run.run s = (next a).run.run after := by
  simp only [ExceptT.run_bind, StateT.run_bind, h]
  rfl

theorem run_bind_error {α β ε σ : Type} {first : ExceptT ε (StateM σ) α} {s after : σ} {e : ε}
    (h : first.run.run s = (.error e, after)) (next : α → ExceptT ε (StateM σ) β) :
    (first >>= next).run.run s = (.error e, after) := by
  simp only [ExceptT.run_bind, StateT.run_bind, h]
  rfl

/-- In place, a field is set as it is set anyway, and a resource of which it cannot be set stays. -/
theorem setFieldInPlace_eq (hr : (Json.object r.body).Ordered) (path : String) (new : Json) :
    (setFieldInPlace path new).run.run r =
      ((r.setField path new).map fun _ => (), (r.setField path new).toOption.getD r) := by
  have hrun : (setFieldInPlace path new).run.run r =
      (MonadExcept.ofExcept (((Json.object r.body).setInPlace path new).1.mapError Error.fieldPath) :
        ExceptT Error (StateM Resource) Unit).run.run
        { r with body := ((Json.object r.body).setInPlace path new).2.fields } := rfl
  rw [hrun, Json.setInPlace_eq hr, setField]
  cases (Json.object r.body).set path new <;> rfl

/-- The conditions are looked at in the resource as it is. -/
theorem run_setConditionInPlace (now : Instant) (c : Condition) (r : Resource) :
    (setConditionInPlace now c).run.run r =
      (if (r.condition? c.type).any (·.equivalent c) then pure false else do
        setFieldInPlace conditionsPath (.array ((c.upsert r.conditions).map (Condition.encode now)))
        return true : ExceptT Error (StateM Resource) Bool).run.run r := rfl

/-- In place, nothing changes if the first condition of its type says the same. -/
theorem setConditionInPlace_of_equivalent (now : Instant)
    (h : (r.condition? c.type).any (·.equivalent c) = true) :
    (setConditionInPlace now c).run.run r = (.ok false, r) := by
  rw [run_setConditionInPlace, if_pos h]
  rfl

/-- Otherwise the list is written. -/
theorem setCondition_of_not_equivalent (now : Instant)
    (h : ¬ (r.condition? c.type).any (·.equivalent c) = true) :
    r.setCondition now c = (r.setField conditionsPath
      (.array ((c.upsert r.conditions).map (Condition.encode now)))).map (true, ·) :=
  if_neg h

/-- In place, a condition is set as it is set anyway, and a resource of which it cannot be set stays. -/
theorem setConditionInPlace_eq (hr : (Json.object r.body).Ordered) :
    (setConditionInPlace now c).run.run r =
      ((r.setCondition now c).map Prod.fst, ((r.setCondition now c).map Prod.snd).toOption.getD r) := by
  by_cases hsame : (r.condition? c.type).any (·.equivalent c) = true
  · rw [setConditionInPlace_of_equivalent now hsame, setCondition, if_pos hsame]
    rfl
  · have hset := setFieldInPlace_eq hr conditionsPath
      (.array ((c.upsert r.conditions).map (Condition.encode now)))
    rw [run_setConditionInPlace, if_neg hsame, setCondition_of_not_equivalent now hsame]
    cases hfield : r.setField conditionsPath
        (.array ((c.upsert r.conditions).map (Condition.encode now))) with
    | error e =>
      rw [hfield] at hset
      exact run_bind_error hset _
    | ok after =>
      rw [hfield] at hset
      exact run_bind_ok hset _

/-! ### What a condition that is set leaves alone -/

/-- Two resources are the same but for the conditions in their status. -/
structure SameButConditions (r after : Resource) : Prop where
  /-- The type is the same. -/
  typeMeta : after.typeMeta = r.typeMeta
  /-- The metadata are the same. -/
  metadata : after.metadata = r.metadata
  /-- The body is the same but for the status. -/
  body : ∀ name, name ≠ "status" → after.body.get? name = r.body.get? name
  /-- The status is the same but for the conditions; a null has no fields. -/
  status : ∀ name, name ≠ "conditions" → ((after.body.get? "status").getD .null).field? name =
    ((r.body.get? "status").getD .null).field? name

theorem sameButConditions_of_setCondition (h : r.setCondition now c = .ok (true, r')) :
    r.SameButConditions r' := by
  obtain ⟨fields, items, hfields, rfl⟩ := changed_of_setCondition h
  obtain rfl := Json.eq_fields_of_fieldsForWriting hfields
  refine ⟨rfl, rfl, fun name hname => Dict.get?_insert_of_ne _ _ hname.symm, fun name hname => ?_⟩
  rw [Dict.get?_insert_self]
  exact Dict.get?_insert_of_ne _ _ hname.symm

/-! ### Setting a condition -/

theorem setCondition_eq_false_iff :
    r.setCondition now c = .ok (false, r) ↔ c.FirstEquivalent r.conditions := by
  rw [Condition.firstEquivalent_iff]
  constructor
  · intro h
    obtain ⟨hsame, -, -⟩ | ⟨-, habsurd, -⟩ := setCondition_cases h
    · exact hsame
    · cases habsurd
  · intro hsame
    exact if_pos hsame

/-- A value cannot be set exactly where none can be read. -/
theorem setField_fails_iff (path : String) (new : Json) :
    (∃ e, r.setField path new = .error e) ↔ ∃ e, r.get? path = .error e := by
  have hfails : (∃ e, (Json.object r.body).set path new = .error e) ↔
      ∃ e, (Json.object r.body).get? path = .error e := Json.set_fails_iff new
  unfold setField get?
  cases hset : (Json.object r.body).set path new <;>
    cases hget : (Json.object r.body).get? path <;>
    simp_all [bind, Except.bind, Except.mapError, pure, Except.pure]

/-- A condition cannot be set exactly where conditions cannot be read. -/
theorem setCondition_fails_iff (now : Instant) (c : Condition) :
    (∃ e, r.setCondition now c = .error e) ↔ ∃ e, r.get? conditionsPath = .error e := by
  have hfield := setField_fails_iff (r := r) conditionsPath
    (.array ((c.upsert r.conditions).map (Condition.encode now)))
  rw [← hfield]
  by_cases hsame : (r.condition? c.type).any (·.equivalent c) = true
  · -- Where conditions cannot be read there are none, and none says the same.
    have hread : ¬ ∃ e, r.get? conditionsPath = .error e := by
      rintro ⟨e, he⟩
      simp [condition?, conditions, he] at hsame
    simp [setCondition, hsame, hfield, hread]
  · rw [setCondition_of_not_equivalent now hsame]
    cases r.setField conditionsPath (.array ((c.upsert r.conditions).map (Condition.encode now))) <;>
      simp [Except.map]

/-- Set a condition, all times of the resource's conditions that are not given standing for the time of
the clock. The answer is that nothing changed exactly if the first condition of its type says the same,
and then the resource is as it was. If something changed, the condition has come in place of the first
of its type, with the time of that one if the status is the same, or at the end, and nothing but the
conditions changed. The condition cannot be set exactly where conditions cannot be read, and then the
resource is as it was. If it can be set, setting it again, at any time, changes nothing. -/
theorem setConditionInPlace_upserts (hnow : now.Valid) (hc : c.Valid)
    (hr : (Json.object r.body).Ordered) :
    let listed := r.conditions.map (Condition.stamped now)
    let (outcome, after) := (setConditionInPlace now c).run.run r
    r.setCondition now c = outcome.map (fun changed => (changed, after)) ∧
      (outcome = .ok false ↔ c.FirstEquivalent listed) ∧
      (outcome = .ok true → Condition.Upserted (c.stamped now) listed after.conditions ∧
        r.SameButConditions after) ∧
      ((∃ e, outcome = .error e) ↔ ∃ e, r.get? conditionsPath = .error e) ∧
      (outcome ≠ .ok true → after = r) ∧
      ∀ changed, outcome = .ok changed →
        ∀ later, (setConditionInPlace later c).run.run after = (.ok false, after) := by
  intro listed
  rw [Condition.firstEquivalent_stamped, ← setCondition_eq_false_iff,
    ← setCondition_fails_iff now c, setConditionInPlace_eq hr]
  cases hset : r.setCondition now c with
  | error e =>
    dsimp only [Except.map, Except.toOption, Option.getD]
    exact ⟨rfl, by simp, nofun, by simp, fun _ => rfl, nofun⟩
  | ok result =>
    obtain ⟨changed, after⟩ := result
    have hagain (later : Instant) :
        (setConditionInPlace later c).run.run after = (.ok false, after) := by
      obtain ⟨d, hd, hsame⟩ := condition?_setCondition hnow hc hset
      exact setConditionInPlace_of_equivalent later (by simp [hd, hsame])
    dsimp only [Except.map, Except.toOption, Option.getD]
    cases changed with
    | false =>
      obtain rfl := eq_of_setCondition hset
      exact ⟨rfl, by simp, nofun, by simp, fun _ => rfl, fun _ _ => hagain⟩
    | true =>
      refine ⟨rfl, by simp, fun _ => ⟨?_, sameButConditions_of_setCondition hset⟩, by simp, by simp,
        fun _ _ => hagain⟩
      rw [conditions_of_setCondition hnow hc hset, Condition.stamped_upsert]
      exact Condition.upsert_upserted ..

/-- A bucket is still waiting: the first of its two `Ready` conditions gets another message and keeps
its time, and a value that is no condition is passed over. -/
theorem waiting_renewed :
    let now : Instant := ⟨2024, 1, 1, 6, 0, 0, 0⟩
    let noon : Instant := ⟨2023, 12, 31, 12, 0, 0, 0⟩
    let c : Condition := { Condition.creating "still waiting" with lastTransition := some now }
    let r : Resource := { body := [("status", .object [
      ("conditions", .array [.string "Ready",
        .object [("status", .string "True"), ("type", .string "Synced")],
        .object [("lastTransitionTime", .string "2023-12-31T12:00:00Z"), ("message", .string "waiting"),
          ("reason", .string "Creating"), ("status", .string "False"), ("type", .string "Ready")],
        .object [("status", .string "True"), ("type", .string "Ready")]]),
      ("phase", .string "Pending")])] }
    now.Valid ∧ c.Valid ∧ (Json.object r.body).Ordered ∧ ∃ after,
      (setConditionInPlace now c).run.run r = (.ok true, after) ∧
      c.Upserted (r.conditions.map (Condition.stamped now)) after.conditions ∧
      { c with lastTransition := some noon } ∈ after.conditions ∧ r.SameButConditions after ∧
      (setConditionInPlace noon c).run.run after = (.ok false, after) := by
  intro now noon c r
  have hnow : now.Valid :=
    ⟨by decide, by decide, by decide, by decide, by decide, by decide, by decide⟩
  have hc : c.Valid := by
    rintro t ⟨⟩
    exact hnow
  have hr : (Json.object r.body).Ordered := by decide
  have hchanged : ((setConditionInPlace now c).run.run r).1 = .ok true := by decide +kernel
  have hkept : { c with lastTransition := some noon } ∈
      ((setConditionInPlace now c).run.run r).2.conditions := by decide +kernel
  obtain ⟨-, -, htrue, -, -, hagain⟩ := setConditionInPlace_upserts hnow hc hr
  obtain ⟨hupserted, hsame⟩ := htrue hchanged
  exact ⟨hnow, hc, hr, _, Prod.ext hchanged rfl, hupserted, hkept, hsame, hagain true hchanged noon⟩

end Resource

end ResourceComposition
