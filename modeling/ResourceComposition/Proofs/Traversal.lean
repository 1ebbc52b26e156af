import ResourceComposition.Proofs.Divergence

/-!
# What can be read can be written

A path is followed in the same way for writing as for reading. Both go on below a null, and both stop
where a field is asked of something that is no object, or an item of something that is no list. So a
value can be set at a path exactly if it can be read there (`Json.set_fails_iff`), and the two faults
differ in the verb only (`Json.write_eq_error`).

Writing in place makes nulls into containers, enters fields and fills lists up before it knows
whether the rest of the path can be followed. All that it makes is null, though, and below a null
everything can be written (`Json.write_null_ne_error`). Where it fails it has therefore only gone
through what was there, and puts back what it found (`Json.writeInPlace_of_error`).
-/

namespace ResourceComposition

/-- The same fault, met on writing. -/
def FieldPath.Fault.forWriting : Fault → Fault
  | .notObject _ name => .notObject .write name
  | .notArray _ position => .notArray .write position
  | fault => fault

namespace Json

variable {value new after child : Json} {name : String} {position : Nat} {rest path : FieldPath}
  {fields : Dict Json} {items : List Json} {fault : FieldPath.Fault}

/-! ### Steps that cannot be taken -/

theorem follow?_of_fieldsForWriting_error (h : fieldsForWriting name value = .error fault)
    (rest : FieldPath) : fault = .notObject .write name ∧
      value.follow? (.field name :: rest) = .error (.notObject .read name) := by
  cases value with
  | null | object => cases h
  | _ =>
    obtain rfl := Except.error.inj h
    exact ⟨rfl, rfl⟩

theorem follow?_of_itemsForWriting_error (h : itemsForWriting position value = .error fault)
    (rest : FieldPath) : fault = .notArray .write position ∧
      value.follow? (.index position :: rest) = .error (.notArray .read position) := by
  cases value with
  | null | array => cases h
  | _ =>
    obtain rfl := Except.error.inj h
    exact ⟨rfl, rfl⟩

/-- Writing below a field fails if the field cannot be asked for, or if writing into it fails. -/
theorem write_field_eq_error : write new (.field name :: rest) value = .error fault ↔
    fieldsForWriting name value = .error fault ∨
      ∃ fields, fieldsForWriting name value = .ok fields ∧
        write new rest ((fields.get? name).getD .null) = .error fault := by
  rw [write]
  cases hfields : fieldsForWriting name value with
  | error fault => simp [bind, Except.bind]
  | ok fields =>
    cases hchild : write new rest ((fields.get? name).getD .null) <;>
      simp [hchild, bind, Except.bind, pure, Except.pure]

/-- Writing below an index fails if the item cannot be asked for, or if writing into it fails. -/
theorem write_index_eq_error : write new (.index position :: rest) value = .error fault ↔
    itemsForWriting position value = .error fault ∨
      ∃ items, itemsForWriting position value = .ok items ∧
        write new rest (items[position]?.getD .null) = .error fault := by
  rw [write]
  cases hitems : itemsForWriting position value with
  | error fault => simp [bind, Except.bind]
  | ok items =>
    cases hchild : write new rest (items[position]?.getD .null) <;>
      simp [hchild, bind, Except.bind, pure, Except.pure]

/-- Writing fails exactly where reading does, and for the same reason. -/
theorem write_eq_error : write new path value = .error fault ↔
    ∃ cause, value.follow? path = .error cause ∧ fault = cause.forWriting := by
  induction path generalizing value with
  | nil => simp [write, follow?]
  | cons segment rest ih =>
    cases segment with
    | field name =>
      rw [write_field_eq_error]
      cases hfields : fieldsForWriting name value with
      | error fault' =>
        obtain ⟨rfl, hread⟩ := follow?_of_fieldsForWriting_error hfields rest
        simp [hread, FieldPath.Fault.forWriting, eq_comm]
      | ok fields => simp [follow?_of_fieldsForWriting hfields, ih]
    | index position =>
      rw [write_index_eq_error]
      cases hitems : itemsForWriting position value with
      | error fault' =>
        obtain ⟨rfl, hread⟩ := follow?_of_itemsForWriting_error hitems rest
        simp [hread, FieldPath.Fault.forWriting, eq_comm]
      | ok items => simp [follow?_of_itemsForWriting hitems, ih]

/-- Below a null everything can be written. -/
theorem write_null_ne_error : write new path .null ≠ .error fault := by
  intro h
  obtain ⟨cause, hread, -⟩ := write_eq_error.mp h
  rw [follow?_null] at hread
  cases hread

theorem set_eq_error {text : String} {e : FieldPath.Error} : value.set text new = .error e ↔
    FieldPath.parse text = .error e ∨ ∃ path fault, FieldPath.parse text = .ok path ∧
      write new path value = .error fault ∧ e = ⟨text, fault⟩ := by
  unfold set
  cases FieldPath.parse text with
  | error e' => simp [bind, Except.bind]
  | ok path => cases h : write new path value <;> simp [h, bind, Except.bind, eq_comm]

/-- A value cannot be set exactly where it cannot be read. -/
theorem set_fails_iff (new : Json) {text : String} :
    (∃ e, value.set text new = .error e) ↔ ∃ e, value.get? text = .error e := by
  cases hparse : FieldPath.parse text with
  | error e => simp [set, get?, hparse, bind, Except.bind]
  | ok path =>
    have hset (e : FieldPath.Error) : value.set text new = .error e ↔
        ∃ cause, value.follow? path = .error cause ∧ e = ⟨text, cause.forWriting⟩ := by
      simp only [set_eq_error, hparse, write_eq_error, reduceCtorEq, Except.ok.injEq, false_or]
      constructor
      · rintro ⟨_, _, rfl, ⟨cause, hread, rfl⟩, rfl⟩
        exact ⟨cause, hread, rfl⟩
      · rintro ⟨cause, hread, rfl⟩
        exact ⟨path, _, rfl, ⟨cause, hread, rfl⟩, rfl⟩
    rw [get?_of_parse hparse]
    cases hread : value.follow? path <;> simp [hset, hread]

/-! ### Writing in place -/

/-- In place, a value is written as it is written anyway. -/
theorem writeInPlace_of_ok (h : write new path value = .ok after) :
    writeInPlace new path value = (.ok (), after) := by
  induction path generalizing value after with
  | nil =>
    obtain rfl := Except.ok.inj h
    rfl
  | cons segment rest ih =>
    cases segment with
    | field name =>
      obtain ⟨fields, child, hfields, hchild, rfl⟩ := write_field_eq_ok.mp h
      simp only [writeInPlace, hfields, Dict.getD_insertIfNew, ih hchild, Dict.insert_insertIfNew]
    | index position =>
      obtain ⟨items, child, hitems, hchild, rfl⟩ := write_index_eq_ok.mp h
      simp only [writeInPlace, hitems, getD_padded, ih hchild]

theorem get?_of_write_error (h : write new rest ((fields.get? name).getD .null) = .error fault) :
    ∃ child, fields.get? name = some child ∧ write new rest child = .error fault := by
  cases hget : fields.get? name with
  | none =>
    rw [hget] at h
    exact absurd h write_null_ne_error
  | some child => exact ⟨child, rfl, by rwa [hget] at h⟩

theorem getElem?_of_write_error (h : write new rest (items[position]?.getD .null) = .error fault) :
    ∃ child, items[position]? = some child ∧ write new rest child = .error fault := by
  cases hget : items[position]? with
  | none =>
    rw [hget] at h
    exact absurd h write_null_ne_error
  | some child => exact ⟨child, rfl, by rwa [hget] at h⟩

/-- A list that is long enough is not filled up. -/
theorem padded_of_getElem? (h : items[position]? = some child) :
    padded items (position + 1) = items := by
  have hlt : position < items.length := (List.getElem?_eq_some_iff.mp h).1
  rw [padded, Nat.sub_eq_zero_of_le hlt, List.replicate_zero, List.append_nil]

/-- In place, a value that cannot be written leaves everything as it was. -/
theorem writeInPlace_of_error (hvalue : value.Ordered) (h : write new path value = .error fault) :
    writeInPlace new path value = (.error fault, value) := by
  induction path generalizing value with
  | nil => cases h
  | cons segment rest ih =>
    cases segment with
    | field name =>
      obtain hfields | ⟨fields, hfields, hbelow⟩ := write_field_eq_error.mp h
      · simp only [writeInPlace, hfields]
      · obtain ⟨child, hget, hchild⟩ := get?_of_write_error hbelow
        cases value with
        | object _ =>
          obtain rfl := Except.ok.inj hfields
          simp only [writeInPlace, hfields, Dict.insertIfNew_of_get? hget, hget, Option.getD_some,
            ih (hvalue.2.get? hget) hchild, hvalue.1.insert_of_get? hget]
        | null =>
          obtain rfl := Except.ok.inj hfields
          cases hget
        | _ => cases hfields
    | index position =>
      obtain hitems | ⟨items, hitems, hbelow⟩ := write_index_eq_error.mp h
      · simp only [writeInPlace, hitems]
      · obtain ⟨child, hget, hchild⟩ := getElem?_of_write_error hbelow
        cases value with
        | array found =>
          obtain rfl := Except.ok.inj hitems
          have hordered : child.Ordered :=
            orderedItems_iff.mp hvalue child (List.mem_of_getElem? hget)
          have hplaced : found.set position child = found := by
            obtain ⟨hlt, rfl⟩ := List.getElem?_eq_some_iff.mp hget
            exact List.set_getElem_self hlt
          simp only [writeInPlace, hitems, padded_of_getElem? hget, hget, Option.getD_some,
            ih hordered hchild, hplaced]
        | null =>
          obtain rfl := Except.ok.inj hitems
          simp at hget
        | _ => cases hitems

/-! ### Setting in place -/

/-- Setting in place does what setting does, and leaves the value as it was if that fails. -/
theorem setInPlace_eq (hvalue : value.Ordered) (text : String) : value.setInPlace text new =
    match value.set text new with
    | .ok after => (.ok (), after)
    | .error e => (.error e, value) := by
  unfold setInPlace set
  cases FieldPath.parse text with
  | error e => rfl
  | ok path =>
    cases hwrite : write new path value with
    | ok after => simp [writeInPlace_of_ok hwrite, hwrite, bind, Except.bind]
    | error fault => simp [writeInPlace_of_error hvalue hwrite, hwrite, bind, Except.bind]

/-- A value can be set in place at a path exactly if the path can be read, whatever is to be put
there. If it cannot, the value is left as it was; if it can, it becomes what setting gives. -/
theorem setInPlace_refused (hvalue : value.Ordered) (text : String) (new : Json) :
    let (outcome, after) := value.setInPlace text new
    ((∃ e, outcome = .error e) ↔ ∃ e, value.get? text = .error e) ∧
      (∀ e, outcome = .error e → after = value) ∧
      value.set text new = outcome.map fun _ => after := by
  rw [setInPlace_eq hvalue, ← set_fails_iff new]
  cases value.set text new with
  | ok after => exact ⟨by simp, nofun, rfl⟩
  | error e => exact ⟨by simp, fun _ _ => rfl, rfl⟩

/-- The path leads through a list that is long enough to a name, which has no fields. -/
theorem name_refused :
    let value : Json := .object [("spec", .object [("tags", .array [.null,
      .object [("key", .null), ("name", .string "cool")]])])]
    value.Ordered ∧ ∃ e, value.setInPlace "spec.tags[1].name.first" (.string "x") = (.error e, value) ∧
      ∃ e', value.get? "spec.tags[1].name.first" = .error e' := by
  intro value
  have hvalue : value.Ordered := by decide
  have hread : ∃ e, value.get? "spec.tags[1].name.first" = .error e := ⟨_, rfl⟩
  obtain ⟨hfails, hsame, -⟩ := setInPlace_refused hvalue "spec.tags[1].name.first" (.string "x")
  obtain ⟨e, he⟩ := hfails.mpr hread
  exact ⟨hvalue, e, Prod.ext he (hsame e he), hread⟩

end Json

end ResourceComposition
