import ResourceComposition.Proofs.Paths

/-!
# Reading where nothing was written

After a value was put at a path, that value is read there, and a null reads as nothing. At every path
that parts from the first where both have a field, or both an index, the same is read as before:
the same value, nothing as before, or the same fault (`Json.get?_set`).

Both hold because writing takes a place that is not there for a null, and so does reading
(`Json.follow?_null`). What is below a field of a value that is made an object for writing is
therefore what was read there before, whether the value was an object or a null
(`Json.follow?_of_fieldsForWriting`), and likewise for the items of a list, those included that only
fill it up.
-/

namespace ResourceComposition

namespace FieldPath

/-- Two paths part where both have a field, or both an index. -/
inductive Diverge : FieldPath → FieldPath → Prop where
  /-- They part at fields of different names. -/
  | fields {name name' : String} {rest rest' : FieldPath} (h : name ≠ name') :
      Diverge (.field name :: rest) (.field name' :: rest')
  /-- They part at different indexes. -/
  | indexes {position position' : Nat} {rest rest' : FieldPath} (h : position ≠ position') :
      Diverge (.index position :: rest) (.index position' :: rest')
  /-- They part below a segment that they share. -/
  | shared {segment : Segment} {rest rest' : FieldPath} (h : Diverge rest rest') :
      Diverge (segment :: rest) (segment :: rest')

theorem Diverge.symm {path other : FieldPath} (h : path.Diverge other) : other.Diverge path := by
  induction h with
  | fields hne => exact .fields hne.symm
  | indexes hne => exact .indexes hne.symm
  | shared _ ih => exact .shared ih

/-- Whether two paths part, by comparing them segment by segment. -/
def diverges : FieldPath → FieldPath → Bool
  | .field name :: rest, .field name' :: rest' => name ≠ name' || diverges rest rest'
  | .index position :: rest, .index position' :: rest' => position ≠ position' || diverges rest rest'
  | _, _ => false

theorem diverges_iff {path other : FieldPath} : path.diverges other = true ↔ path.Diverge other := by
  constructor
  · intro h
    fun_induction diverges path other with
    | case1 name rest name' rest' ih =>
      by_cases hne : name = name'
      · subst hne
        exact .shared (ih (by simpa using h))
      · exact .fields hne
    | case2 position rest position' rest' ih =>
      by_cases hne : position = position'
      · subst hne
        exact .shared (ih (by simpa using h))
      · exact .indexes hne
    | case3 => cases h
  · intro h
    induction h with
    | fields hne => simp [diverges, hne]
    | indexes hne => simp [diverges, hne]
    | @shared segment rest rest' _ ih => cases segment <;> simp [diverges, ih]

instance (path other : FieldPath) : Decidable (path.Diverge other) :=
  decidable_of_iff _ diverges_iff

end FieldPath

namespace Json

variable {value new after : Json} {name : String} {position : Nat} {rest path other : FieldPath}

/-! ### Values made ready for writing -/

/-- In a value that is made an object for writing, the fields are read as before. -/
theorem follow?_of_fieldsForWriting {fields : Dict Json}
    (h : fieldsForWriting name value = .ok fields) (name' : String) (rest : FieldPath) :
    value.follow? (.field name' :: rest) = ((fields.get? name').getD .null).follow? rest := by
  cases value with
  | null =>
    obtain rfl := Except.ok.inj h
    rw [follow?_null, Dict.get?_nil, Option.getD_none, follow?_null]
  | object fields =>
    obtain rfl := Except.ok.inj h
    exact follow?_object ..
  | _ => cases h

/-- In a value that is made a list for writing, the items are read as before. -/
theorem follow?_of_itemsForWriting {items : List Json}
    (h : itemsForWriting position value = .ok items) (position' : Nat) (rest : FieldPath) :
    value.follow? (.index position' :: rest) = (items[position']?.getD .null).follow? rest := by
  cases value with
  | null =>
    obtain rfl := Except.ok.inj h
    rw [follow?_null, List.getElem?_nil, Option.getD_none, follow?_null]
  | array items =>
    obtain rfl := Except.ok.inj h
    exact follow?_array ..
  | _ => cases h

/-- The nulls that fill a list up stand where nothing was. -/
theorem getD_padded (items : List Json) (length position : Nat) :
    (padded items length)[position]?.getD .null = items[position]?.getD .null := by
  rw [padded, List.getElem?_append]
  split
  · rfl
  · next h =>
    rw [List.getElem?_eq_none (Nat.le_of_not_lt h), List.getElem?_replicate]
    split <;> rfl

/-! ### Reading after writing -/

/-- At a path that parts from the one that was written, the same is read as before. -/
theorem follow?_write_of_diverge (hdiverge : path.Diverge other)
    (h : write new path value = .ok after) : after.follow? other = value.follow? other := by
  induction hdiverge generalizing value after with
  | @fields name name' rest rest' hne =>
    obtain ⟨fields, child, hfields, -, rfl⟩ := write_field_eq_ok.mp h
    rw [follow?_object, Dict.get?_insert_of_ne _ _ hne, follow?_of_fieldsForWriting hfields]
  | @indexes position position' rest rest' hne =>
    obtain ⟨items, child, hitems, -, rfl⟩ := write_index_eq_ok.mp h
    rw [follow?_array, List.getElem?_set_ne hne, getD_padded, follow?_of_itemsForWriting hitems]
  | @shared segment rest rest' _ ih =>
    cases segment with
    | field name =>
      obtain ⟨fields, child, hfields, hchild, rfl⟩ := write_field_eq_ok.mp h
      rw [follow?_object, Dict.get?_insert_self, follow?_of_fieldsForWriting hfields]
      exact ih hchild
    | index position =>
      obtain ⟨items, child, hitems, hchild, rfl⟩ := write_index_eq_ok.mp h
      have hlt : position < (padded items (position + 1)).length := length_padded ..
      rw [follow?_array, List.getElem?_set_self hlt, follow?_of_itemsForWriting hitems]
      exact ih hchild

theorem set_eq_ok {text : String} : value.set text new = .ok after ↔
    ∃ path, FieldPath.parse text = .ok path ∧ write new path value = .ok after := by
  unfold set
  cases FieldPath.parse text with
  | error e => simp [bind, Except.bind]
  | ok path => cases h : write new path value <;> simp [h, bind, Except.bind]

theorem get?_of_parse {text : String} (h : FieldPath.parse text = .ok path) :
    value.get? text = (value.follow? path).mapError fun fault => ⟨text, fault⟩ := by
  rw [get?, h]
  rfl

/-- What was set is read again, and nothing if it is null; and whatever is read at a path that parts
from the one that was set, where both have a field or both an index, is read as before: the same
value, nothing as before, or the same error. -/
theorem get?_set {text : String} (h : value.set text new = .ok after) :
    after.get? text = .ok (if new.isNull then none else some new) ∧
      ∀ text' path other, FieldPath.parse text = .ok path → FieldPath.parse text' = .ok other →
        path.Diverge other → after.get? text' = value.get? text' := by
  obtain ⟨path, hparse, hwrite⟩ := set_eq_ok.mp h
  constructor
  · rw [get?_of_parse hparse, follow?_written hwrite]
    rfl
  · intro text' path' other hparse' hother hdiverge
    obtain rfl := Except.ok.inj (hparse.symm.trans hparse')
    rw [get?_of_parse hother, get?_of_parse hother, follow?_write_of_diverge hdiverge hwrite]

/-- A null becomes a list that is filled up. The item before the new one is still not there, and the
text beside the list cannot be followed any more than before. -/
theorem tags_set :
    let value : Json := .object [("spec", .object [("name", .string "cool"), ("tags", .null)])]
    let after : Json := .object [("spec", .object [("name", .string "cool"),
      ("tags", .array [.null, .object [("key", .string "b")]])])]
    value.set "spec.tags[1].key" (.string "b") = .ok after ∧
      after.get? "spec.tags[1].key" = .ok (some (.string "b")) ∧
      after.get? "spec.tags[0].key" = value.get? "spec.tags[0].key" ∧
      after.get? "spec.name.first" = value.get? "spec.name.first" := by
  intro value after
  have hset : value.set "spec.tags[1].key" (.string "b") = .ok after := rfl
  obtain ⟨hself, hothers⟩ := get?_set hset
  exact ⟨hset, hself, hothers _ _ _ rfl rfl (.shared (.shared (.indexes (by decide)))),
    hothers _ _ _ rfl rfl (.shared (.fields (by decide)))⟩

end Json

end ResourceComposition
