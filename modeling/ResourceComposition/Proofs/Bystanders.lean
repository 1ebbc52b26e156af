import Mathlib.Data.List.Basic
import ResourceComposition.Proofs.Renewal

/-!
# Conditions beside one that is set

The list of conditions belongs to many controllers. Setting a condition reads the conditions of the
list, puts the new one among them and writes all of them again. So the other entries keep their order,
but they come back as conditions are written (`Resource.others_of_setCondition`): a value that is no
condition is gone, and a condition has lost the fields that are not known, and gained those that it
left out, a time of transition above all.

What stays exactly as it was is therefore what was written like that before (`Condition.Written`), and
setting a condition leaves the others alone if all of them were, or if nothing was written
(`Resource.setCondition_keeps_others_iff`).
-/

namespace ResourceComposition

namespace Condition

variable {now : Instant} {c : Condition} {type : String} {item : Json} {items : List Json}
  {conditions : List Condition}

/-- Whether a value is a condition of a type. -/
def isOf (type : String) (item : Json) : Bool :=
  (decode item).toOption.any fun c => decide (c.type = type)

/-- The values of a list that are no conditions of a type: conditions of other types, and values that
are no conditions at all. -/
def others (type : String) (items : List Json) : List Json := items.filter fun item => !isOf type item

/-- What becomes of a value when a list of conditions is written again; nothing if it is no
condition. -/
def rewritten (now : Instant) (item : Json) : Option Json := (decode item).toOption.map (encode now)

/-- A value is what is written for a condition that has a time. -/
def Written (item : Json) : Prop :=
  ∃ (c : Condition) (t : Instant), c.lastTransition = some t ∧ t.Valid ∧ item = c.encode t

theorem others_others (type : String) (items : List Json) :
    others type (others type items) = others type items := by
  simp only [others, List.filter_filter, Bool.and_self]

/-! ### Values written again -/

/-- A condition that has a time is written in the same way at any time. -/
theorem encode_of_lastTransition {t : Instant} (h : c.lastTransition = some t) (now : Instant) :
    c.encode now = c.encode t := by
  simp only [encode, h, Option.getD_some]

/-- A value is the same when it is written again exactly if it was written like that before. -/
theorem rewritten_eq_self_iff (hnow : now.Valid) : rewritten now item = some item ↔ Written item := by
  constructor
  · intro h
    obtain ⟨c, hread, hitem⟩ := Option.map_eq_some_iff.mp h
    have hc : c.Valid := by
      rw [Decoder.toOption_decode] at hread
      exact valid_of_meaning hread
    -- What was written has a time, and it was read from what was written.
    have hagain := toOption_decode_encode hnow hc
    rw [hitem, hread] at hagain
    have htime : c.lastTransition = some (c.lastTransition.getD now) :=
      congrArg lastTransition (Option.some.inj hagain)
    exact ⟨c, _, htime, hc _ htime, by rw [← hitem, encode_of_lastTransition htime]⟩
  · rintro ⟨c, t, htime, ht, rfl⟩
    have hc : c.Valid := by
      intro t' ht'
      obtain rfl := Option.some.inj (htime.symm.trans ht')
      exact ht
    rw [rewritten, toOption_decode_encode ht hc, Option.map_some, ← encode_of_lastTransition htime now]
    simp only [encode, stamped, htime, Option.getD_some]

/-! ### Lists written again -/

/-- Putting a condition into a list leaves the conditions of other types alone. -/
theorem filter_upsert (c : Condition) (conditions : List Condition) :
    (c.upsert conditions).filter (fun d => !decide (d.type = c.type)) =
      conditions.filter fun d => !decide (d.type = c.type) := by
  induction conditions with
  | nil => simp [upsert]
  | cons old rest ih =>
    rw [upsert]
    split
    · next htype =>
      have hnew : (c.replacing old).type = c.type := by
        unfold replacing
        split <;> rfl
      simp [htype, hnew]
    · rw [List.filter_cons, List.filter_cons, ih]

theorem others_encode (hnow : now.Valid) (h : ∀ d ∈ conditions, d.Valid) :
    others type (conditions.map (encode now)) =
      (conditions.filter fun d => !decide (d.type = type)).map (encode now) := by
  rw [others, List.filter_map]
  refine congrArg _ (List.filter_congr fun d hd => ?_)
  rw [Function.comp_apply, isOf, toOption_decode_encode hnow (h d hd)]
  rfl

/-- The conditions of other types among the conditions of a list are those among its other values. -/
theorem encode_parsedConditions (now : Instant) (type : String) (items : List Json) :
    ((Resource.parsedConditions items).filter fun d => !decide (d.type = type)).map (encode now) =
      (others type items).filterMap (rewritten now) := by
  rw [Resource.parsedConditions, List.filter_filterMap, List.map_filterMap, others,
    List.filterMap_filter]
  refine congrArg (List.filterMap · items) (funext fun item => ?_)
  unfold isOf rewritten
  cases (decode item).toOption with
  | none => rfl
  | some d => by_cases htype : d.type = type <;> simp [htype]

/-- The other values of a list are all written again, in order, exactly if each of them was written like
that before. -/
theorem sublist_rewritten_iff (hnow : now.Valid) :
    items.Sublist (items.filterMap (rewritten now)) ↔ ∀ item ∈ items, Written item := by
  have hsame : items.filterMap (rewritten now) = items ↔ ∀ item ∈ items, rewritten now item = some item := by
    simpa using List.filterMap_eq_map_iff_forall_eq_some (g := id) (f := rewritten now) (l := items)
  simp only [← rewritten_eq_self_iff hnow, ← hsame]
  constructor
  · intro h
    exact (h.eq_of_length_le (List.length_filterMap_le ..)).symm
  · intro h
    rw [h]

end Condition

namespace Resource

open Condition

variable {now : Instant} {c : Condition} {r after : Resource} {items : List Json}

theorem conditions_of_get? (h : r.get? conditionsPath = .ok (some (.array items))) :
    r.conditions = parsedConditions items := by
  rw [conditions, h]

/-- Where there is a list of conditions, a condition can be set. -/
theorem exists_setCondition (now : Instant) (c : Condition)
    (h : r.get? conditionsPath = .ok (some (.array items))) :
    ∃ changed after, r.setCondition now c = .ok (changed, after) := by
  cases hset : r.setCondition now c with
  | ok result => exact ⟨result.1, result.2, rfl⟩
  | error e =>
    obtain ⟨e', he'⟩ := (setCondition_fails_iff now c).mp ⟨e, hset⟩
    rw [h] at he'
    cases he'

/-- If a condition was set, the list holds the conditions as they are written, the other ones among them
in order. -/
theorem others_of_setCondition (hnow : now.Valid) (hc : c.Valid)
    (hlist : r.get? conditionsPath = .ok (some (.array items)))
    (h : r.setCondition now c = .ok (true, after)) :
    ∃ items', after.get? conditionsPath = .ok (some (.array items')) ∧
      others c.type items' = (others c.type items).filterMap (rewritten now) := by
  obtain ⟨-, habsurd, -⟩ | ⟨-, -, hset⟩ := setCondition_cases h
  · cases habsurd
  · refine ⟨_, get?_setField parse_conditionsPath (by simp) hset, ?_⟩
    rw [others_encode hnow (c.upsert_valid hc r.conditions_valid), filter_upsert,
      conditions_of_get? hlist, encode_parsedConditions]

/-- Where there is a list of conditions, a condition can be set, and there is a list afterwards. If the
first condition of the type says the same already, nothing changes. Otherwise the values that are no
conditions of the type are written again, in order, and all of them are still there as they were exactly
if each was written like that before. -/
theorem setCondition_keeps_others_iff (hnow : now.Valid) (hc : c.Valid)
    (hlist : r.get? conditionsPath = .ok (some (.array items))) :
    ∃ changed after items', r.setCondition now c = .ok (changed, after) ∧
      after.get? conditionsPath = .ok (some (.array items')) ∧
      (changed = false ↔ c.FirstEquivalent r.conditions) ∧
      (changed = false → after = r) ∧
      (changed = true → others c.type items' = (others c.type items).filterMap (rewritten now)) ∧
      ((others c.type items).Sublist items' ↔
        changed = false ∨ ∀ item ∈ others c.type items, Written item) := by
  obtain ⟨changed, after, hset⟩ := exists_setCondition now c hlist
  have hfirst : changed = false ↔ c.FirstEquivalent r.conditions := by
    have hsame : r.setCondition now c = .ok (false, r) ↔ c.FirstEquivalent r.conditions :=
      setCondition_eq_false_iff
    rw [← hsame, hset]
    constructor
    · rintro rfl
      rw [eq_of_setCondition hset]
    · intro h
      exact (Prod.mk.inj (Except.ok.inj h)).1
  cases changed with
  | false =>
    obtain rfl := eq_of_setCondition hset
    exact ⟨false, after, items, hset, hlist, hfirst, fun _ => rfl, nofun,
      fun _ => .inl rfl, fun _ => List.filter_sublist⟩
  | true =>
    obtain ⟨items', hafter, hothers⟩ := others_of_setCondition hnow hc hlist hset
    refine ⟨true, after, items', hset, hafter, hfirst, nofun, fun _ => hothers, ?_⟩
    rw [← sublist_rewritten_iff hnow, ← hothers]
    simp only [Bool.true_eq_false, false_or]
    constructor
    · intro h
      -- What is no condition of the type stays so, whatever it stands among.
      have hsub : (others c.type (others c.type items)).Sublist (others c.type items') := h.filter _
      rwa [others_others] at hsub
    · intro h
      exact h.trans List.filter_sublist

/-- A bucket that waits says so next to a condition that was written as conditions are, and that stays. -/
theorem synced_kept :
    let now : Instant := ⟨2024, 1, 1, 6, 0, 0, 0⟩
    let waiting : Condition := Condition.creating "waiting"
    let synced : Condition := {
      type := "Synced", status := .true, reason := "Synced", lastTransition := some now }
    let r : Resource := { body := [("status", .object [("conditions", .array [synced.encode now,
      .object [("status", .string "True"), ("type", .string "Ready")]])])] }
    now.Valid ∧ waiting.Valid ∧
      r.get? conditionsPath = .ok (some (.array [synced.encode now,
        .object [("status", .string "True"), ("type", .string "Ready")]])) ∧
      ∃ after items', r.setCondition now waiting = .ok (true, after) ∧
        after.get? conditionsPath = .ok (some (.array items')) ∧
        others "Ready" items' = [synced.encode now] ∧ [synced.encode now].Sublist items' := by
  intro now waiting synced r
  have hnow : now.Valid :=
    ⟨by decide, by decide, by decide, by decide, by decide, by decide, by decide⟩
  have hc : waiting.Valid := nofun
  have hlist : r.get? conditionsPath = .ok (some (.array [synced.encode now,
      .object [("status", .string "True"), ("type", .string "Ready")]])) := by decide +kernel
  have hothers : others "Ready" [synced.encode now,
      .object [("status", .string "True"), ("type", .string "Ready")]] = [synced.encode now] := by
    decide +kernel
  have hagain : [synced.encode now].filterMap (rewritten now) = [synced.encode now] := by
    decide +kernel
  have hchanged : (r.setCondition now waiting).map Prod.fst = .ok true := by decide +kernel
  obtain ⟨changed, after, items', hset, hafter, -, -, hrewritten, hkept⟩ :=
    setCondition_keeps_others_iff hnow hc hlist
  obtain rfl : changed = true := by simpa [hset, Except.map] using hchanged
  have htype : waiting.type = "Ready" := rfl
  rw [htype, hothers] at hrewritten hkept
  refine ⟨hnow, hc, hlist, after, items', hset, hafter, (hrewritten rfl).trans hagain,
    hkept.mpr (.inr fun item hitem => ?_)⟩
  obtain rfl := List.mem_singleton.mp hitem
  exact ⟨synced, now, rfl, hnow, rfl⟩

/-- A bucket says that it is waiting. What another controller told of the generation that it had seen is
lost by that, and so is all that a third one told, with a word of its own for the status. -/
theorem generation_lost :
    let now : Instant := ⟨2024, 1, 1, 6, 0, 0, 0⟩
    let waiting : Condition := { Condition.creating "waiting" with lastTransition := some now }
    let synced : Json := .object [("lastTransitionTime", .string "2023-12-31T12:00:00Z"),
      ("message", .string "up to date"), ("observedGeneration", .int 4), ("reason", .string "Synced"),
      ("status", .string "True"), ("type", .string "Synced")]
    let health : Json := .object [("status", .string "Degraded"), ("type", .string "Health")]
    let r : Resource := { body := [("status", .object [("conditions", .array [synced, health])])] }
    r.get? conditionsPath = .ok (some (.array [synced, health])) ∧
      others waiting.type [synced, health] = [synced, health] ∧
      ∃ after items', r.setCondition now waiting = .ok (true, after) ∧
        after.get? conditionsPath = .ok (some (.array items')) ∧
        synced ∉ items' ∧ health ∉ items' ∧ ¬ [synced, health].Sublist items' := by
  intro now waiting synced health r
  have hlist : r.get? conditionsPath = .ok (some (.array [synced, health])) := by decide +kernel
  have hothers : others waiting.type [synced, health] = [synced, health] := by decide +kernel
  refine ⟨hlist, hothers, { r with body := [("status", .object [("conditions", .array [
    .object [("lastTransitionTime", .string "2023-12-31T12:00:00Z"), ("message", .string "up to date"),
      ("reason", .string "Synced"), ("status", .string "True"), ("type", .string "Synced")],
    waiting.encode now])])] }, _, ?_, rfl, ?_⟩
  · decide +kernel
  · decide +kernel

end Resource

end ResourceComposition
