import ResourceComposition.Proofs.Tidiness
import ResourceComposition.Readiness

/-!
# What checks say of a resource

Whether a check holds of a resource is said here without regard to how it is found out
(`ReadinessCheck.Holds`), and likewise which fault of a check comes to light (`ReadinessCheck.Shows`).
A resource passes a list of checks exactly if all of them hold, so that neither their order matters
nor can a further check help (`Resource.readyBy_conjunction`).

A misconfigured check never holds, so a resource whose checks include one never passes. That it is
told what is wrong does not follow: the first check that does not hold settles the matter, and a
check that lacks the value to compare with simply fails where the field is not there
(`Resource.readyBy_reports_iff`).
-/

namespace ResourceComposition

namespace Resource

/-- The first condition of a type that a resource has; what stands before it are conditions of other
types, or no conditions. -/
def FirstCondition (r : Resource) (type : String) (found : Condition) : Prop :=
  ∃ before item after, r.get? conditionsPath = .ok (some (.array (before ++ item :: after))) ∧
    Condition.decode item = .ok found ∧ found.type = type ∧
    ∀ earlier ∈ before, ∀ c, Condition.decode earlier = .ok c → c.type ≠ type

theorem condition?_eq_some {r : Resource} {type : String} {found : Condition} :
    r.condition? type = some found ↔ r.FirstCondition type found := by
  unfold condition? conditions FirstCondition
  split
  · next items hitems =>
    simp only [hitems, parsedConditions, List.find?_filterMap, Option.bind_eq_some_iff,
      List.find?_eq_some_iff_append, Except.toOption_eq_some]
    constructor
    · rintro ⟨item, ⟨hitem, before, after, rfl, hearlier⟩, hfound⟩
      refine ⟨before, item, after, rfl, hfound, ?_, ?_⟩
      · simpa [Except.toOption_eq_some.mpr hfound] using hitem
      · intro earlier hmem c hc
        simpa [Except.toOption_eq_some.mpr hc] using hearlier earlier hmem
    · rintro ⟨before, item, after, hsplit, hfound, htype, hearlier⟩
      obtain rfl := Json.array.inj (Option.some.inj (Except.ok.inj hsplit))
      refine ⟨item, ⟨by simpa [Except.toOption_eq_some.mpr hfound] using htype, before, after, rfl, ?_⟩, hfound⟩
      intro earlier hmem
      cases hc : (Condition.decode earlier).toOption with
      | none => simp
      | some c => simpa using hearlier earlier hmem c (Except.toOption_eq_some.mp hc)
  · next hnone =>
    simp only [List.find?_nil, reduceCtorEq, false_iff]
    rintro ⟨before, item, after, hitems, -⟩
    exact hnone _ hitems

end Resource

namespace ReadinessCheck

variable {c : ReadinessCheck} {r : Resource} {form value : Json} {fault : CheckFault}

/-- A value is one that a check of a field asks for. -/
def Wants (c : ReadinessCheck) (value : Json) : Prop :=
  match c.type with
  | .nonEmpty => value ≠ .string "" ∧ value ≠ .array [] ∧ value ≠ .object []
  | .matchString => ∃ text, c.matchString = some text ∧ value = .string text
  | .matchInteger => ∃ n, c.matchInteger = some n ∧ Json.minInt64 ≤ n ∧ n ≤ Json.maxInt64 ∧
      value = .int n
  | .matchTrue => value = .bool true
  | .matchFalse => value = .bool false
  | .matchCondition | .none => True

/-- A check holds of a resource. -/
def Holds (c : ReadinessCheck) (r : Resource) : Prop :=
  match c.type with
  | .none => True
  | .matchCondition => ∃ wanted found, c.matchCondition = some wanted ∧
      r.FirstCondition wanted.type found ∧ found.status = wanted.status
  | _ => ∃ path value, c.fieldPath = some path ∧ r.encode.get? path = .ok (some value) ∧
      value ≠ .null ∧ c.Wants value

/-- A check looks at a field. -/
def LooksAtField (c : ReadinessCheck) : Prop := c.type ≠ .none ∧ c.type ≠ .matchCondition

instance (c : ReadinessCheck) : Decidable c.LooksAtField := inferInstanceAs (Decidable (_ ∧ _))

theorem passes_of_field (h : c.LooksAtField) : c.passes r = c.passesField r.encode := by
  obtain ⟨hnone, hcondition⟩ := h
  unfold passes
  split
  · contradiction
  · contradiction
  · rfl

/-- Only a whole number of 64 bits is one that can be asked for. -/
theorem int64?_eq_some {n : Int} : value.int64? = some n ↔
    Json.minInt64 ≤ n ∧ n ≤ Json.maxInt64 ∧ value = .int n := by
  cases value with
  | int k =>
    simp only [Json.int64?, Option.ite_none_right_eq_some, Option.some.injEq, Json.int.injEq]
    constructor
    · rintro ⟨⟨hmin, hmax⟩, rfl⟩
      exact ⟨hmin, hmax, rfl⟩
    · rintro ⟨hmin, hmax, rfl⟩
      exact ⟨⟨hmin, hmax⟩, rfl⟩
  | _ => simp [Json.int64?]

theorem accepts_eq_true (hvalue : value ≠ .null) : c.accepts value = .ok true ↔ c.Wants value := by
  obtain ⟨type, path, text, number, condition⟩ := c
  cases type with
  | nonEmpty => cases value <;> simp_all [accepts, Wants, isEmptyValue]
  | matchString => cases text <;> cases value <;> simp [accepts, Wants, Json.string?, eq_comm]
  | matchInteger => cases number <;> simp [accepts, Wants, int64?_eq_some]
  | matchTrue => cases value <;> simp [accepts, Wants, Json.bool?]
  | matchFalse => cases value <;> simp [accepts, Wants, Json.bool?]
  | matchCondition => simp [accepts, Wants]
  | none => simp [accepts, Wants]

theorem accepts_eq_error : c.accepts value = .error fault ↔
    c.type = .matchString ∧ c.matchString = none ∧ fault = .noString ∨
      c.type = .matchInteger ∧ c.matchInteger = none ∧ fault = .noInteger := by
  obtain ⟨type, path, text, number, condition⟩ := c
  cases type with
  | matchString => cases text <;> simp [accepts, eq_comm]
  | matchInteger => cases number <;> simp [accepts, eq_comm]
  | _ => simp [accepts]

theorem holds_of_field (h : c.LooksAtField) : c.Holds r ↔
    ∃ path value, c.fieldPath = some path ∧ r.encode.get? path = .ok (some value) ∧
      value ≠ .null ∧ c.Wants value := by
  obtain ⟨hnone, hcondition⟩ := h
  unfold Holds
  split
  · contradiction
  · contradiction
  · rfl

theorem passesField_eq_true : c.passesField r.encode = .ok true ↔
    ∃ path value, c.fieldPath = some path ∧ r.encode.get? path = .ok (some value) ∧
      value ≠ .null ∧ c.Wants value := by
  unfold passesField
  cases c.fieldPath with
  | none => simp
  | some path =>
    cases hread : r.encode.get? path with
    | error cause => simp [hread]
    | ok value? =>
      cases value? with
      | none => simp [hread]
      | some value =>
        obtain ⟨segments, -, hfollow⟩ := Json.follow?_of_get? hread
        have hvalue := Json.ne_null_of_follow? hfollow
        simp [hread, accepts_eq_true hvalue, hvalue]

theorem passesCondition_eq_true : c.passesCondition r = .ok true ↔
    ∃ wanted found, c.matchCondition = some wanted ∧ r.FirstCondition wanted.type found ∧
      found.status = wanted.status := by
  unfold passesCondition
  cases c.matchCondition with
  | none => simp
  | some wanted => simp [Option.any_eq_true, Resource.condition?_eq_some]

/-- A resource passes a check exactly if the check holds of it. -/
theorem passes_eq_true : c.passes r = .ok true ↔ c.Holds r := by
  by_cases hfield : c.LooksAtField
  · rw [passes_of_field hfield, holds_of_field hfield, passesField_eq_true]
  · cases htype : c.type with
    | none => simp [passes, Holds, htype]
    | matchCondition => simpa only [passes, Holds, htype] using passesCondition_eq_true
    | _ => simp [LooksAtField, htype] at hfield

/-! ### Faults -/

/-- A check lacks what it needs, or its path cannot be parsed. -/
inductive Misconfigured (c : ReadinessCheck) : Prop where
  /-- The condition is missing. -/
  | noCondition (htype : c.type = .matchCondition) (hnone : c.matchCondition = none)
  /-- The path is missing. -/
  | noPath (hfield : c.LooksAtField) (hnone : c.fieldPath = none)
  /-- The path cannot be parsed. -/
  | malformed (hfield : c.LooksAtField) {path : String} {cause : FieldPath.Error}
      (hpath : c.fieldPath = some path) (hparse : FieldPath.parse path = .error cause)
  /-- The text is missing. -/
  | noString (htype : c.type = .matchString) (hnone : c.matchString = none)
  /-- The number is missing. -/
  | noInteger (htype : c.type = .matchInteger) (hnone : c.matchInteger = none)

/-- A fault of a check comes to light when a resource is checked. -/
inductive Shows (c : ReadinessCheck) (r : Resource) : CheckFault → Prop where
  /-- The condition is missing. -/
  | noCondition (htype : c.type = .matchCondition) (hnone : c.matchCondition = none) :
      Shows c r .noCondition
  /-- The path is missing. -/
  | noPath (hfield : c.LooksAtField) (hnone : c.fieldPath = none) : Shows c r .noPath
  /-- The path cannot be parsed, or not be followed in the resource. -/
  | unreadable (hfield : c.LooksAtField) {path : String} {cause : FieldPath.Error}
      (hpath : c.fieldPath = some path) (hread : r.encode.get? path = .error cause) :
      Shows c r (.unreadable cause)
  /-- The text is missing that a field should be. -/
  | noString (htype : c.type = .matchString) (hnone : c.matchString = none) {path : String}
      {value : Json} (hpath : c.fieldPath = some path)
      (hread : r.encode.get? path = .ok (some value)) : Shows c r .noString
  /-- The number is missing that a field should be. -/
  | noInteger (htype : c.type = .matchInteger) (hnone : c.matchInteger = none) {path : String}
      {value : Json} (hpath : c.fieldPath = some path)
      (hread : r.encode.get? path = .ok (some value)) : Shows c r .noInteger

/-- The field that a check looks at is not there. -/
def FieldAbsent (c : ReadinessCheck) (r : Resource) : Prop :=
  c.LooksAtField ∧ ∃ path, c.fieldPath = some path ∧ r.encode.get? path = .ok none

theorem passesField_eq_error (hfield : c.LooksAtField) :
    c.passesField r.encode = .error fault ↔ c.Shows r fault := by
  unfold passesField
  constructor
  · intro h
    split at h
    · next hnone =>
      obtain rfl := Except.error.inj h
      exact .noPath hfield hnone
    · next path hpath =>
      split at h
      · next cause hread =>
        obtain rfl := Except.error.inj h
        exact .unreadable hfield hpath hread
      · cases h
      · next value hread =>
        obtain ⟨htype, hnone, rfl⟩ | ⟨htype, hnone, rfl⟩ := accepts_eq_error.mp h
        · exact .noString htype hnone hpath hread
        · exact .noInteger htype hnone hpath hread
  · intro h
    cases h with
    | noCondition htype _ => exact absurd htype hfield.2
    | noPath _ hnone => simp [hnone]
    | unreadable _ hpath hread => simp [hpath, hread]
    | noString htype hnone hpath hread =>
      simpa [hpath, hread] using accepts_eq_error.mpr (.inl ⟨htype, hnone, rfl⟩)
    | noInteger htype hnone hpath hread =>
      simpa [hpath, hread] using accepts_eq_error.mpr (.inr ⟨htype, hnone, rfl⟩)

/-- A check ends in an error exactly if a fault of it comes to light. -/
theorem passes_eq_error : c.passes r = .error fault ↔ c.Shows r fault := by
  by_cases hfield : c.LooksAtField
  · rw [passes_of_field hfield, passesField_eq_error hfield]
  · have hcondition : c.Shows r fault ↔
        c.type = .matchCondition ∧ c.matchCondition = none ∧ fault = .noCondition := by
      constructor
      · intro h
        cases h with
        | noCondition htype hnone => exact ⟨htype, hnone, rfl⟩
        | noPath hlooks | unreadable hlooks => exact absurd hlooks hfield
        | noString htype | noInteger htype => simp [LooksAtField, htype] at hfield
      · rintro ⟨htype, hnone, rfl⟩
        exact .noCondition htype hnone
    rw [hcondition]
    cases htype : c.type with
    | none => simp [passes, htype]
    | matchCondition =>
      cases hwanted : c.matchCondition <;> simp [passes, passesCondition, htype, hwanted, eq_comm]
    | _ => simp [LooksAtField, htype] at hfield

theorem get?_of_malformed {path : String} {cause : FieldPath.Error}
    (h : FieldPath.parse path = .error cause) : form.get? path = .error cause := by
  simp [Json.get?, h, bind, Except.bind]

/-- A misconfigured check does not hold of any resource. -/
theorem Misconfigured.not_holds (h : c.Misconfigured) (r : Resource) : ¬ c.Holds r := by
  intro hholds
  cases h with
  | noCondition htype hnone => simp [Holds, htype, hnone] at hholds
  | noPath hfield hnone =>
    obtain ⟨path, _, hpath, -⟩ := (holds_of_field hfield).mp hholds
    simp [hnone] at hpath
  | malformed hfield hpath hparse =>
    obtain ⟨path, _, hpath', hread, -⟩ := (holds_of_field hfield).mp hholds
    obtain rfl := Option.some.inj (hpath.symm.trans hpath')
    simp [get?_of_malformed hparse] at hread
  | noString htype hnone => simp [Holds, Wants, htype, hnone] at hholds
  | noInteger htype hnone => simp [Holds, Wants, htype, hnone] at hholds

/-- A check of a field whose field is there, or whose path leads nowhere, has a fault that comes to
light or a value to look at. -/
theorem shows_or_finds (hfield : c.LooksAtField) (hpresent : ¬ c.FieldAbsent r) :
    (∃ fault, c.Shows r fault) ∨
      ∃ path value, c.fieldPath = some path ∧ r.encode.get? path = .ok (some value) := by
  cases hpath : c.fieldPath with
  | none => exact .inl ⟨_, .noPath hfield hpath⟩
  | some path =>
    cases hread : r.encode.get? path with
    | error cause => exact .inl ⟨_, .unreadable hfield hpath hread⟩
    | ok value? =>
      cases value? with
      | none => exact absurd ⟨hfield, path, hpath, hread⟩ hpresent
      | some value => exact .inr ⟨path, value, rfl, hread⟩

theorem Shows.not_fieldAbsent (h : c.Shows r fault) : ¬ c.FieldAbsent r := by
  rintro ⟨hfield, path, hpath, habsent⟩
  cases h with
  | noCondition htype _ => exact hfield.2 htype
  | noPath _ hnone => simp [hnone] at hpath
  | unreadable _ hpath' hread | noString _ _ hpath' hread | noInteger _ _ hpath' hread =>
    obtain rfl := Option.some.inj (hpath.symm.trans hpath')
    simp [habsent] at hread

/-- What is wrong with a misconfigured check comes to light unless its field is not there. -/
theorem Misconfigured.shows_iff (h : c.Misconfigured) (r : Resource) :
    (∃ fault, c.Shows r fault) ↔ ¬ c.FieldAbsent r := by
  refine ⟨fun ⟨_, hshows⟩ => hshows.not_fieldAbsent, fun hpresent => ?_⟩
  cases h with
  | noCondition htype hnone => exact ⟨_, .noCondition htype hnone⟩
  | noPath hfield hnone => exact ⟨_, .noPath hfield hnone⟩
  | malformed hfield hpath hparse => exact ⟨_, .unreadable hfield hpath (get?_of_malformed hparse)⟩
  | noString htype hnone =>
    obtain hshows | ⟨_, _, hpath, hread⟩ := shows_or_finds (by simp [LooksAtField, htype]) hpresent
    · exact hshows
    · exact ⟨_, .noString htype hnone hpath hread⟩
  | noInteger htype hnone =>
    obtain hshows | ⟨_, _, hpath, hread⟩ := shows_or_finds (by simp [LooksAtField, htype]) hpresent
    · exact hshows
    · exact ⟨_, .noInteger htype hnone hpath hread⟩

/-! ### Lists of checks -/

variable {checks : List ReadinessCheck} {e : CompositionError}

theorem allPassFrom_cons (place : Nat) (c : ReadinessCheck) (checks : List ReadinessCheck) :
    allPassFrom r place (c :: checks) = match c.passes r with
      | .error fault => .error (.readiness place c.type fault)
      | .ok false => .ok false
      | .ok true => allPassFrom r (place + 1) checks := rfl

/-- A resource passes a list of checks exactly if all of them hold. -/
theorem allPassFrom_eq_true (place : Nat) :
    allPassFrom r place checks = .ok true ↔ ∀ c ∈ checks, c.Holds r := by
  induction checks generalizing place with
  | nil => simp [allPassFrom]
  | cons c rest ih =>
    rw [List.forall_mem_cons, ← passes_eq_true, ← ih (place + 1), allPassFrom_cons]
    cases c.passes r with
    | error fault => simp
    | ok passed => cases passed <;> simp

/-- A list of checks ends in an error exactly if a fault of a check comes to light and all checks before
it hold. -/
theorem allPassFrom_eq_error (place : Nat) : allPassFrom r place checks = .error e ↔
    ∃ before c after fault, checks = before ++ c :: after ∧ (∀ earlier ∈ before, earlier.Holds r) ∧
      c.Shows r fault ∧ e = .readiness (place + before.length) c.type fault := by
  induction checks generalizing place with
  | nil => simp [allPassFrom]
  | cons first rest ih =>
    rw [allPassFrom_cons]
    constructor
    · intro h
      cases hfirst : first.passes r with
      | error fault =>
        rw [hfirst] at h
        obtain rfl := Except.error.inj h
        exact ⟨[], first, rest, fault, rfl, nofun, passes_eq_error.mp hfirst, rfl⟩
      | ok passed =>
        rw [hfirst] at h
        cases passed with
        | false => cases h
        | true =>
          obtain ⟨before, c, after, fault, rfl, hbefore, hshows, rfl⟩ := (ih _).mp h
          refine ⟨first :: before, c, after, fault, rfl, ?_, hshows, ?_⟩
          · exact List.forall_mem_cons.mpr ⟨passes_eq_true.mp hfirst, hbefore⟩
          · rw [List.length_cons, Nat.add_right_comm, Nat.add_assoc]
    · rintro ⟨before, c, after, fault, hsplit, hbefore, hshows, rfl⟩
      cases before with
      | nil =>
        obtain ⟨rfl, rfl⟩ := List.cons.inj hsplit
        rw [passes_eq_error.mpr hshows]
        rfl
      | cons earlier more =>
        obtain ⟨rfl, rfl⟩ := List.cons.inj hsplit
        obtain ⟨hfirst, hmore⟩ := List.forall_mem_cons.mp hbefore
        rw [passes_eq_true.mpr hfirst]
        refine (ih _).mpr ⟨more, c, after, fault, rfl, hmore, hshows, ?_⟩
        rw [List.length_cons, Nat.add_right_comm, Nat.add_assoc]

end ReadinessCheck

namespace Resource

variable {checks : List ReadinessCheck} {r : Resource}

theorem readyBy_of_ne_nil (h : checks ≠ []) :
    r.readyBy checks = ReadinessCheck.allPassFrom r 0 checks := if_neg h

/-- A resource passes some checks exactly if all of them hold. -/
theorem readyBy_eq_true (h : checks ≠ []) : r.readyBy checks = .ok true ↔ ∀ c ∈ checks, c.Holds r := by
  rw [readyBy_of_ne_nil h, ReadinessCheck.allPassFrom_eq_true]

/-- Checks are a conjunction: a resource passes some checks exactly if all of them hold. So their order
does not matter for that, and what does not pass some checks does not pass one more either, wherever
it is put in. -/
theorem readyBy_conjunction (r : Resource) :
    (∀ checks, checks ≠ [] → (r.readyBy checks = .ok true ↔ ∀ c ∈ checks, c.Holds r)) ∧
    (∀ checks checks', checks.Perm checks' →
      (r.readyBy checks = .ok true ↔ r.readyBy checks' = .ok true)) ∧
    ∀ before c after, before ++ after ≠ [] → r.readyBy (before ++ after) ≠ .ok true →
      r.readyBy (before ++ c :: after) ≠ .ok true := by
  refine ⟨fun checks => readyBy_eq_true, fun checks checks' hperm => ?_, ?_⟩
  · by_cases hnil : checks = []
    · subst hnil
      rw [hperm.nil_eq]
    · have hnil' : checks' ≠ [] := fun h => hnil (h ▸ hperm).eq_nil
      rw [readyBy_eq_true hnil, readyBy_eq_true hnil']
      exact forall_congr' fun c => by rw [hperm.mem_iff]
  · intro before c after hne hfails hpasses
    refine hfails ((readyBy_eq_true hne).mpr fun d hd => ?_)
    have hall := (readyBy_eq_true (by simp)).mp hpasses
    exact hall d (((List.sublist_cons_self c after).append_left before).subset hd)

/-- A bucket that is available, with a count beyond 64 bits and a condition that says so twice. -/
def bucket : Resource where
  typeMeta := some ⟨"s3.example.org/v1", "Bucket"⟩
  metadata := { name := some "bucket" }
  body := [("status", .object [
    ("conditions", .array [.string "Synced",
      .object [("status", .string "True"), ("type", .string "Synced")],
      .object [("status", .string "False"), ("type", .string "Synced")]]),
    ("count", .int 9223372036854775808), ("phase", .string "Available")])]

/-- The bucket passes a text, a condition and no check at all in any order, and with a count beyond 64
bits it does not. -/
theorem bucket_conjunction :
    let phase : ReadinessCheck := {
      type := .matchString, fieldPath := some "status.phase", matchString := some "Available" }
    let synced : ReadinessCheck := {
      type := .matchCondition, matchCondition := some ⟨"Synced", .true⟩ }
    let count : ReadinessCheck := {
      type := .matchInteger, fieldPath := some "status.count"
      matchInteger := some 9223372036854775807 }
    (∀ c ∈ [phase, synced, { type := .none }], c.Holds bucket) ∧
      bucket.readyBy [{ type := .none }, phase, synced] = .ok true ∧
      bucket.readyBy [phase, count] ≠ .ok true ∧ bucket.readyBy [phase, synced, count] ≠ .ok true := by
  intro phase synced count
  obtain ⟨hiff, hperm, hmore⟩ := readyBy_conjunction bucket
  have hready : bucket.readyBy [phase, synced, { type := .none }] = .ok true := by decide +kernel
  have hcount : bucket.readyBy [phase, count] ≠ .ok true := by decide +kernel
  exact ⟨(hiff _ (by simp)).mp hready, (hperm _ _ (by decide)).mp hready, hcount,
    hmore [phase] synced [count] (by simp) hcount⟩

/-- Checks end in an error exactly if all checks before some check hold and a fault of that one comes
to light, which the error tells with its place. A resource does not pass checks one of which is
misconfigured, but what is wrong with that comes to light only if its turn comes, and not if the field
that it looks at is not there. -/
theorem readyBy_reports_iff (checks : List ReadinessCheck) (r : Resource) :
    (∀ e, r.readyBy checks = .error e ↔ ∃ before c after fault, checks = before ++ c :: after ∧
      (∀ earlier ∈ before, earlier.Holds r) ∧ c.Shows r fault ∧
      e = .readiness before.length c.type fault) ∧
    ∀ c ∈ checks, c.Misconfigured →
      r.readyBy checks ≠ .ok true ∧ ((∃ fault, c.Shows r fault) ↔ ¬ c.FieldAbsent r) := by
  constructor
  · intro e
    by_cases hnil : checks = []
    · subst hnil
      simp [readyBy]
    · rw [readyBy_of_ne_nil hnil, ReadinessCheck.allPassFrom_eq_error]
      simp only [Nat.zero_add]
  · intro c hmem hmis
    have hnil : checks ≠ [] := List.ne_nil_of_mem hmem
    exact ⟨fun hready => hmis.not_holds r ((readyBy_eq_true hnil).mp hready c hmem), hmis.shows_iff r⟩

/-- The phase of the bucket is there, so that the text to compare it with is found missing. -/
theorem bucket_phase_reported :
    let phase : ReadinessCheck := { type := .matchString, fieldPath := some "status.phase" }
    phase.Misconfigured ∧ ¬ phase.FieldAbsent bucket ∧
      bucket.readyBy [{ type := .none }, phase] = .error (.readiness 1 .matchString .noString) := by
  intro phase
  have hmis : phase.Misconfigured := .noString rfl rfl
  have hread : bucket.encode.get? "status.phase" = .ok (some (.string "Available")) := by
    decide +kernel
  obtain ⟨hreports, hlist⟩ := readyBy_reports_iff [{ type := .none }, phase] bucket
  have hshows : phase.Shows bucket .noString := .noString rfl rfl rfl hread
  refine ⟨hmis, (hlist phase (by simp) hmis).2.mp ⟨_, hshows⟩, ?_⟩
  exact (hreports _).mpr ⟨[{ type := .none }], phase, [], _, rfl, by simp [ReadinessCheck.Holds],
    hshows, rfl⟩

/-- The endpoint of the bucket is not there: a check that lacks the text to compare it with just fails,
and so does a list with another check that lacks its path. -/
theorem bucket_endpoint_unreported :
    let endpoint : ReadinessCheck := { type := .matchString, fieldPath := some "status.endpoint" }
    let present : ReadinessCheck := { endpoint with type := .nonEmpty }
    let pathless : ReadinessCheck := { type := .nonEmpty }
    endpoint.Misconfigured ∧ bucket.readyBy [endpoint] = .ok false ∧
      pathless.Misconfigured ∧ bucket.readyBy [present, pathless] = .ok false :=
  ⟨.noString rfl rfl, by decide +kernel, .noPath (by decide) rfl, by decide +kernel⟩

end Resource

end ResourceComposition
