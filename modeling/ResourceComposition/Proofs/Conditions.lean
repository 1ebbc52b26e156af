import ResourceComposition.Proofs.Forms
import ResourceComposition.Proofs.Instants
import ResourceComposition.Proofs.Paths
import ResourceComposition.Resource.Condition

/-!
# Conditions, set and read

A condition that is set is read from the resource afterwards. What is written is a list of all the
conditions that the resource had, each with a time; that they are read as they were written rests on
times being written so that they can be read.
-/

namespace ResourceComposition

namespace Decode

variable {α : Type} {name : String} {entries : Dict Json} {item : Decoder α} {a : α}

/-- The fields of an object are read one by one. -/
theorem meaning_record_object (style : Json.RecordStyle) (fields : Fields α) :
    (record name style fields).meaning (.object entries) = fields.meaning entries := rfl

/-- A record is read from fields, also if it was written as a list. -/
theorem fields_of_meaning_record {style : Json.RecordStyle} {fields : Fields α} {value : Json}
    (h : (record name style fields).meaning value = some a) :
    ∃ entries, fields.meaning entries = some a := by
  cases value with
  | object entries => exact ⟨entries, h⟩
  | array items =>
    simp only [record] at h
    split at h
    · exact ⟨_, h⟩
    · cases h
  | _ => cases h

theorem given_eq_some {o : Option α} : (given name item).meaning entries = some o ↔
    entries.get? name = none ∧ o = none ∨
      ∃ value a, entries.get? name = some value ∧ item.meaning value = some a ∧ o = some a := by
  simp only [given]
  cases entries.get? name with
  | none => simp [eq_comm]
  | some value =>
    constructor
    · intro h
      obtain ⟨a, ha, rfl⟩ := Option.map_eq_some_iff.mp h
      exact .inr ⟨value, a, rfl, ha, rfl⟩
    · rintro (⟨habsurd, -⟩ | ⟨value', a, hvalue, ha, rfl⟩)
      · cases habsurd
      · obtain rfl := Option.some.inj hvalue
        simp [ha]

theorem givenOr_of_get? {default : α} (value : Json) (hget : entries.get? name = some value)
    (hvalue : item.meaning value = some a) :
    (givenOr name default item).meaning entries = some a :=
  meaning_map.mpr ⟨some a, given_eq_some.mpr (.inr ⟨value, a, hget, hvalue, rfl⟩), rfl⟩

theorem givenOr_of_none {default : α} (hget : entries.get? name = none) :
    (givenOr name default item).meaning entries = some default :=
  meaning_map.mpr ⟨none, given_eq_some.mpr (.inl ⟨hget, rfl⟩), rfl⟩

theorem instant_eq_some {value : Json} {t : Instant} (h : instant.meaning value = some t) :
    t.Valid := by
  cases value with
  | string s => exact Instant.parse_valid (Except.toOption_eq_some.mp h)
  | _ => cases h

end Decode

namespace Condition

/-- The time of a condition, if it has one, is one of the calendar. -/
def Valid (c : Condition) : Prop := ∀ t ∈ c.lastTransition, t.Valid

/-- A condition as it is written: with the time of the clock if it says no other. -/
def stamped (now : Instant) (c : Condition) : Condition :=
  { c with lastTransition := some (c.lastTransition.getD now) }

variable {now : Instant} {c : Condition}

theorem meaning_encode (hnow : now.Valid) (hc : c.Valid) :
    decode.meaning (c.encode now) = some (c.stamped now) := by
  obtain ⟨type, status, reason, message, lastTransition⟩ := c
  have htime : (lastTransition.getD now).Valid := by
    cases lastTransition with
    | none => exact hnow
    | some t => exact hc t rfl
  have hparse := Instant.parse_render htime
  have hstatus : ConditionStatus.decode.meaning (.string status.word) = some status := by
    cases status <;> rfl
  simp only [decode, encode, Json.ofPresent_eq, Decode.meaning_record_object, Decode.meaning_seq,
    Decode.meaning_map]
  refine ⟨_, ⟨_, ⟨_, ⟨_, ⟨type, ?_, rfl⟩, status, ?_, rfl⟩, reason, ?_, rfl⟩, message, ?_, rfl⟩,
    some (lastTransition.getD now), ?_, rfl⟩
  · simp [Decode.required, Decode.string, Json.string?]
  · simp [Decode.required, hstatus]
  · exact Decode.givenOr_of_get? (.string reason) (by simp) rfl
  · -- A message that is not written is empty.
    by_cases hempty : message.isEmpty = true
    · obtain rfl := String.isEmpty_iff.mp hempty
      exact Decode.givenOr_of_none (by simp)
    · exact Decode.givenOr_of_get? (.string message) (by simp [hempty]) rfl
  · refine Decode.given_eq_some.mpr (.inr ⟨.string (lastTransition.getD now).render, _, by simp, ?_, rfl⟩)
    simp [Decode.instant, hparse, Except.toOption]

theorem toOption_decode_encode (hnow : now.Valid) (hc : c.Valid) :
    (decode (c.encode now)).toOption = some (c.stamped now) := by
  rw [Decoder.toOption_decode, meaning_encode hnow hc]

/-- The time of a condition that was read is one of the calendar. -/
theorem valid_of_meaning {value : Json} (h : decode.meaning value = some c) : c.Valid := by
  obtain ⟨entries, hfields⟩ := Decode.fields_of_meaning_record h
  simp only [Decode.meaning_seq, Decode.meaning_map] at hfields
  obtain ⟨_, ⟨_, ⟨_, ⟨_, ⟨_, -, rfl⟩, _, -, rfl⟩, _, -, rfl⟩, _, -, rfl⟩, time, htime, rfl⟩ := hfields
  rintro t rfl
  obtain ⟨-, habsurd⟩ | ⟨value, t', -, ht', htt'⟩ := Decode.given_eq_some.mp htime
  · cases habsurd
  · obtain rfl := Option.some.inj htt'
    exact Decode.instant_eq_some ht'

/-! ### Putting a condition into a list -/

theorem Valid.replacing {old : Condition} (hc : c.Valid) (hold : old.Valid) :
    (c.replacing old).Valid := by
  unfold Condition.replacing
  split
  · exact hold
  · exact hc

theorem upsert_valid {conditions : List Condition} (hc : c.Valid) (h : ∀ d ∈ conditions, d.Valid) :
    ∀ d ∈ c.upsert conditions, d.Valid := by
  induction conditions with
  | nil => simpa [upsert] using hc
  | cons old rest ih =>
    obtain ⟨hold, hrest⟩ := List.forall_mem_cons.mp h
    rw [upsert]
    split
    · exact List.forall_mem_cons.mpr ⟨hc.replacing hold, hrest⟩
    · exact List.forall_mem_cons.mpr ⟨hold, ih hrest⟩

/-- A condition that is put in place of another says the same as before. -/
theorem equivalent_replacing (old : Condition) : (c.replacing old).equivalent c = true := by
  unfold replacing
  split <;> simp [equivalent]

/-- The first condition of its type says what the one says that was put there. -/
theorem find?_upsert (conditions : List Condition) : ∃ d,
    (c.upsert conditions).find? (fun d => decide (d.type = c.type)) = some d ∧
      d.equivalent c = true := by
  induction conditions with
  | nil => exact ⟨c, by simp [upsert], by simp [equivalent]⟩
  | cons old rest ih =>
    rw [upsert]
    split
    · have hsame := equivalent_replacing (c := c) old
      have htype : (c.replacing old).type = c.type := by
        simp only [equivalent, decide_eq_true_eq] at hsame
        exact hsame.1
      exact ⟨_, by simp [htype], hsame⟩
    · next hne =>
      obtain ⟨d, hd, hsame⟩ := ih
      exact ⟨d, by simpa [hne] using hd, hsame⟩

end Condition

namespace Resource

variable {now : Instant} {c : Condition} {r : Resource}

theorem parsedConditions_valid (items : List Json) : ∀ c ∈ parsedConditions items, c.Valid := by
  intro c hc
  obtain ⟨item, -, hitem⟩ := List.mem_filterMap.mp hc
  rw [Decoder.toOption_decode] at hitem
  exact Condition.valid_of_meaning hitem

theorem conditions_valid (r : Resource) : ∀ c ∈ r.conditions, c.Valid := by
  unfold conditions
  split
  · exact parsedConditions_valid _
  · exact nofun

/-- Conditions are read as they were written. -/
theorem parsedConditions_encode {conditions : List Condition} (hnow : now.Valid)
    (h : ∀ c ∈ conditions, c.Valid) :
    parsedConditions (conditions.map (Condition.encode now)) =
      conditions.map (Condition.stamped now) := by
  induction conditions with
  | nil => rfl
  | cons c rest ih =>
    obtain ⟨hc, hrest⟩ := List.forall_mem_cons.mp h
    have hmore := ih hrest
    unfold parsedConditions at hmore ⊢
    rw [List.map_cons, List.filterMap_cons, Condition.toOption_decode_encode hnow hc, hmore]
    rfl

theorem parse_conditionsPath :
    FieldPath.parse conditionsPath = .ok [.field "status", .field "conditions"] := rfl

/-- A value that is set is read from the body. -/
theorem get?_setField {path name : String} {rest : FieldPath} {new : Json} {r' : Resource}
    (hparse : FieldPath.parse path = .ok (.field name :: rest)) (hnew : new ≠ .null)
    (h : r.setField path new = .ok r') : r'.get? path = .ok (some new) := by
  simp only [setField, Json.set, hparse, bind, Except.bind] at h
  cases hwrite : Json.write new (.field name :: rest) (.object r.body) with
  | error fault => simp [hwrite] at h
  | ok body =>
    have hread := Json.follow?_write_self hwrite hnew
    obtain ⟨child, rfl⟩ := Json.write_field hwrite
    obtain rfl : { r with body := r.body.insert name child } = r' := by
      simpa [hwrite, pure, Except.pure, Json.fields] using h
    simp only [get?, Json.get?, hparse, bind, Except.bind]
    rw [show Json.object (r.body.insert name child) =
      .object ((Json.object r.body).fields.insert name child) from rfl, hread]
    rfl

/-- Setting a condition changes nothing if the first of its type says the same, and otherwise writes the
list. -/
theorem setCondition_cases {changed : Bool} {reported : Resource}
    (h : r.setCondition now c = .ok (changed, reported)) :
    (r.condition? c.type).any (·.equivalent c) = true ∧ changed = false ∧ reported = r ∨
      (r.condition? c.type).any (·.equivalent c) = false ∧ changed = true ∧
        r.setField conditionsPath (.array ((c.upsert r.conditions).map (Condition.encode now))) =
          .ok reported := by
  unfold setCondition at h
  split at h
  · next hsame =>
    obtain ⟨rfl, rfl⟩ := Prod.mk.inj (Except.ok.inj h)
    exact .inl ⟨hsame, rfl, rfl⟩
  · next hnew =>
    cases hset : r.setField conditionsPath
        (.array ((c.upsert r.conditions).map (Condition.encode now))) with
    | error e => simp [hset, Except.map] at h
    | ok written =>
      obtain ⟨rfl, rfl⟩ : true = changed ∧ written = reported := by
        simpa [hset, Except.map] using h
      exact .inr ⟨by simpa using hnew, rfl, rfl⟩

/-- After a change the conditions are those that were put together, each with a time. -/
theorem conditions_of_setCondition {reported : Resource} (hnow : now.Valid) (hc : c.Valid)
    (h : r.setCondition now c = .ok (true, reported)) :
    reported.conditions = (c.upsert r.conditions).map (Condition.stamped now) := by
  obtain ⟨-, habsurd, -⟩ | ⟨-, -, hset⟩ := setCondition_cases h
  · cases habsurd
  · rw [conditions, get?_setField parse_conditionsPath (by simp) hset]
    exact parsedConditions_encode hnow (c.upsert_valid hc r.conditions_valid)

/-- The first condition of its type says what the one says that was set, whether anything changed or
not. -/
theorem condition?_setCondition {changed : Bool} {reported : Resource} (hnow : now.Valid)
    (hc : c.Valid) (h : r.setCondition now c = .ok (changed, reported)) :
    ∃ d, reported.condition? c.type = some d ∧ d.equivalent c = true := by
  obtain ⟨hsame, -, rfl⟩ | ⟨-, rfl, -⟩ := setCondition_cases h
  · exact (Option.any_eq_true ..).mp hsame
  · obtain ⟨d, hd, hsame⟩ := c.find?_upsert r.conditions
    refine ⟨d.stamped now, ?_, hsame⟩
    rw [condition?, conditions_of_setCondition hnow hc h, List.find?_map]
    exact congrArg (Option.map _) hd

/-- If anything changed, a list of conditions was written into the status. -/
theorem changed_of_setCondition {reported : Resource}
    (h : r.setCondition now c = .ok (true, reported)) : ∃ fields items,
      Json.fieldsForWriting "conditions" ((r.body.get? "status").getD .null) = .ok fields ∧
      reported = { r with
        body := r.body.insert "status" (.object (fields.insert "conditions" (.array items))) } := by
  obtain ⟨-, habsurd, -⟩ | ⟨-, -, hset⟩ := setCondition_cases h
  · cases habsurd
  · obtain ⟨fields, hfields, hwritten⟩ := (setField_eq_ok parse_conditionsPath).mp hset
    exact ⟨fields, _, hfields, hwritten⟩

/-- If nothing changed, the resource is the same. -/
theorem eq_of_setCondition {reported : Resource} (h : r.setCondition now c = .ok (false, reported)) :
    reported = r := by
  obtain ⟨-, -, hsame⟩ | ⟨-, habsurd, -⟩ := setCondition_cases h
  · exact hsame
  · cases habsurd

/-- A resource is ready as the condition that was set says. -/
theorem isReady_setCondition {changed : Bool} {reported : Resource} (hnow : now.Valid)
    (hc : c.Valid) (htype : c.type = Condition.ready)
    (h : r.setCondition now c = .ok (changed, reported)) :
    reported.isReady = true ↔ c.status = .true := by
  obtain ⟨d, hd, hsame⟩ := condition?_setCondition hnow hc h
  simp only [Condition.equivalent, decide_eq_true_eq] at hsame
  rw [isReady, ← htype, hd, ← hsame.2.1]
  simp

end Resource

end ResourceComposition
