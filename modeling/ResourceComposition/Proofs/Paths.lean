import ResourceComposition.Proofs.Order
import ResourceComposition.Resource.Basic

/-!
# Reading where something was written

A value that is written at a path is read there. Writing at one path leaves what is read at another,
if neither path leads on from the other. A merge patch that has a value at a path does to what stands
at the path in the target what `mergedAt` says: it is merged there, but a list on the way is taken
from the patch as a whole.
-/

namespace ResourceComposition

namespace FieldPath

/-- Neither of two paths leads on from the other. -/
def Apart (p q : FieldPath) : Prop := ¬ p <+: q ∧ ¬ q <+: p

instance (p q : FieldPath) : Decidable (p.Apart q) := inferInstanceAs (Decidable (_ ∧ _))

theorem apart_cons {segment : Segment} {p q : FieldPath} :
    Apart (segment :: p) (segment :: q) ↔ p.Apart q := by
  simp [Apart, List.cons_prefix_cons]

theorem Apart.ne_nil {p q : FieldPath} (h : p.Apart q) : p ≠ [] ∧ q ≠ [] := by
  constructor
  · rintro rfl
    exact h.1 List.nil_prefix
  · rintro rfl
    exact h.2 List.nil_prefix

end FieldPath

namespace Json

variable {value new after v : Json} {name : String} {position : Nat} {rest path : FieldPath}

/-! ### Steps of a path -/

theorem follow?_nil : value.follow? [] = .ok (some v) ↔ value = v ∧ v ≠ .null := by
  constructor
  · intro h
    cases value with
    | null => simp [follow?, isNull] at h
    | _ =>
      obtain rfl := Option.some.inj (Except.ok.inj h)
      exact ⟨rfl, by simp⟩
  · rintro ⟨rfl, hv⟩
    cases value with
    | null => exact absurd rfl hv
    | _ => rfl

/-- What is read below a field is read from the value of the field. -/
theorem follow?_field_eq_some : value.follow? (.field name :: rest) = .ok (some v) ↔
    ∃ (fields : Dict Json) (child : Json), value = .object fields ∧ fields.get? name = some child ∧
      child.follow? rest = .ok (some v) := by
  cases value with
  | object fields =>
    rw [follow?]
    cases h : Dict.get? fields name <;> simp [h]
  | _ => simp [follow?]

/-- What is read below an index is read from the item there. -/
theorem follow?_index_eq_some : value.follow? (.index position :: rest) = .ok (some v) ↔
    ∃ items child, value = .array items ∧ items[position]? = some child ∧
      child.follow? rest = .ok (some v) := by
  cases value with
  | array items =>
    rw [follow?]
    cases h : items[position]? <;> simp [h]
  | _ => simp [follow?]

theorem follow?_null (path : FieldPath) : Json.null.follow? path = .ok none := by
  cases path <;> rfl

/-- Below a field that is not there nothing is read, as if it were null. -/
theorem follow?_object (fields : Dict Json) (name : String) (rest : FieldPath) :
    (Json.object fields).follow? (.field name :: rest) =
      ((fields.get? name).getD .null).follow? rest := by
  rw [follow?]
  cases fields.get? name with
  | none => exact (follow?_null rest).symm
  | some child => rfl

/-- Below an item that is not there nothing is read, as if it were null. -/
theorem follow?_array (items : List Json) (position : Nat) (rest : FieldPath) :
    (Json.array items).follow? (.index position :: rest) =
      (items[position]?.getD .null).follow? rest := by
  rw [follow?]
  cases items[position]? with
  | none => exact (follow?_null rest).symm
  | some child => rfl

theorem write_field_eq_ok : write new (.field name :: rest) value = .ok after ↔
    ∃ fields child, fieldsForWriting name value = .ok fields ∧
      write new rest ((fields.get? name).getD .null) = .ok child ∧
      after = .object (fields.insert name child) := by
  rw [write]
  cases hfields : fieldsForWriting name value with
  | error fault => simp [bind, Except.bind]
  | ok fields =>
    cases hchild : write new rest ((fields.get? name).getD .null) <;>
      simp [hchild, bind, Except.bind, pure, Except.pure, eq_comm]

/-- A value that is made an object for writing has the fields that it had. -/
theorem eq_fields_of_fieldsForWriting {fields : Dict Json}
    (h : fieldsForWriting name value = .ok fields) : fields = value.fields := by
  cases value with
  | null | object => exact (Except.ok.inj h).symm
  | _ => cases h

/-- A value that is made an object for writing is in order if it was. -/
theorem sorted_fieldsForWriting {fields : Dict Json} (h : fieldsForWriting name value = .ok fields)
    (hvalue : value.fields.Sorted) : fields.Sorted := by
  rwa [eq_fields_of_fieldsForWriting h]

theorem write_index_eq_ok : write new (.index position :: rest) value = .ok after ↔
    ∃ items child, itemsForWriting position value = .ok items ∧
      write new rest (items[position]?.getD .null) = .ok child ∧
      after = .array ((padded items (position + 1)).set position child) := by
  rw [write]
  cases hitems : itemsForWriting position value with
  | error fault => simp [bind, Except.bind]
  | ok items =>
    cases hchild : write new rest (items[position]?.getD .null) <;>
      simp [hchild, bind, Except.bind, pure, Except.pure, eq_comm]

theorem length_padded (items : List Json) (length : Nat) :
    length ≤ (padded items length).length := by
  rw [padded, List.length_append, List.length_replicate]
  omega

theorem getElem?_padded {items : List Json} {length : Nat} {child : Json}
    (h : items[position]? = some child) : (padded items length)[position]? = some child := by
  obtain ⟨hlt, rfl⟩ := List.getElem?_eq_some_iff.mp h
  rw [padded, List.getElem?_append_left hlt, List.getElem?_eq_getElem hlt]

/-! ### Reading and writing -/

/-- What was written is read, and nothing where a null was written. -/
theorem follow?_written (h : write new path value = .ok after) :
    after.follow? path = .ok (if new.isNull then none else some new) := by
  induction path generalizing value after with
  | nil =>
    obtain rfl := Except.ok.inj h
    rfl
  | cons segment rest ih =>
    cases segment with
    | field name =>
      obtain ⟨fields, child, -, hchild, rfl⟩ := write_field_eq_ok.mp h
      rw [follow?_object, Dict.get?_insert_self]
      exact ih hchild
    | index position =>
      obtain ⟨items, child, -, hchild, rfl⟩ := write_index_eq_ok.mp h
      have hlt : position < (padded items (position + 1)).length := length_padded ..
      rw [follow?_array, List.getElem?_set_self hlt]
      exact ih hchild

/-- What is written is read. -/
theorem follow?_write_self (h : write new path value = .ok after) (hnew : new ≠ .null) :
    after.follow? path = .ok (some new) := by
  rw [follow?_written h, if_neg]
  cases new <;> simp_all [isNull]

/-- What is read at a path stays when something is written apart from it. -/
theorem follow?_write_of_apart {other : FieldPath} (h : write new other value = .ok after)
    (hapart : other.Apart path) (hread : value.follow? path = .ok (some v)) :
    after.follow? path = .ok (some v) := by
  induction other generalizing value after path with
  | nil => exact absurd rfl hapart.ne_nil.1
  | cons segment others ih =>
    cases path with
    | nil => exact absurd rfl hapart.ne_nil.2
    | cons segment' rest =>
      cases segment' with
      | field name =>
        obtain ⟨fields, child, rfl, hget, hbelow⟩ := follow?_field_eq_some.mp hread
        cases segment with
        | index position => simp [write, itemsForWriting, bind, Except.bind] at h
        | field other =>
          obtain ⟨_, child', hfields, hchild, rfl⟩ := write_field_eq_ok.mp h
          obtain rfl := Except.ok.inj hfields
          by_cases hsame : other = name
          · subst hsame
            rw [hget] at hchild
            exact follow?_field_eq_some.mpr ⟨_, child', rfl, Dict.get?_insert_self ..,
              ih hchild (FieldPath.apart_cons.mp hapart) hbelow⟩
          · exact follow?_field_eq_some.mpr ⟨_, child, rfl,
              (Dict.get?_insert_of_ne _ _ hsame).trans hget, hbelow⟩
      | index position =>
        obtain ⟨items, child, rfl, hget, hbelow⟩ := follow?_index_eq_some.mp hread
        cases segment with
        | field name => simp [write, fieldsForWriting, bind, Except.bind] at h
        | index other =>
          obtain ⟨_, child', hitems, hchild, rfl⟩ := write_index_eq_ok.mp h
          obtain rfl := Except.ok.inj hitems
          by_cases hsame : other = position
          · subst hsame
            rw [hget] at hchild
            have hlt : other < (padded items (other + 1)).length := length_padded ..
            exact follow?_index_eq_some.mpr ⟨_, child', rfl, by simp [hlt],
              ih hchild (FieldPath.apart_cons.mp hapart) hbelow⟩
          · refine follow?_index_eq_some.mpr ⟨_, child, rfl, ?_, hbelow⟩
            rw [List.getElem?_set_ne hsame]
            exact getElem?_padded hget

/-! ### Patching -/

/-- What a merge patch that has a value at a path makes of what stands there. -/
def mergedAt (v : Json) : FieldPath → Json → Json
  | [], target => target.mergePatch v
  | .field name :: rest, target => mergedAt v rest ((target.field? name).getD .null)
  | .index _ :: _, _ => v

theorem mergePatch_ne_null {target patch : Json} (h : patch ≠ .null) :
    target.mergePatch patch ≠ .null := by
  cases patch <;> simp_all [mergePatch]

/-- A patched value has at a path what the patch has there, merged with what it had. -/
theorem follow?_mergePatch {target patch : Json} (hpatch : patch.Ordered)
    (h : patch.follow? path = .ok (some v)) :
    (target.mergePatch patch).follow? path = .ok (some (mergedAt v path target)) := by
  induction path generalizing target patch with
  | nil =>
    obtain ⟨rfl, hv⟩ := follow?_nil.mp h
    exact follow?_nil.mpr ⟨rfl, mergePatch_ne_null hv⟩
  | cons segment rest ih =>
    cases segment with
    | field name =>
      obtain ⟨fields, child, rfl, hget, hchild⟩ := follow?_field_eq_some.mp h
      have hmerged : (mergePatchFields target.fields fields).get? name =
          some (mergePatch ((target.field? name).getD .null) child) := by
        rw [get?_mergePatchFields hpatch.1, hget]
        cases child with
        | null => cases rest <;> simp [follow?, isNull] at hchild
        | _ => rfl
      rw [mergePatch, mergedAt]
      exact follow?_field_eq_some.mpr ⟨_, _, rfl, hmerged, ih (hpatch.2.get? hget) hchild⟩
    | index position =>
      obtain ⟨items, child, rfl, hget, hchild⟩ := follow?_index_eq_some.mp h
      exact follow?_index_eq_some.mpr ⟨items, child, rfl, hget, hchild⟩

/-- A value that is no object takes the place of what was there. -/
theorem mergedAt_of_not_object (hv : v.isObject = false) (path : FieldPath) (target : Json) :
    mergedAt v path target = v := by
  induction path generalizing target with
  | nil => cases v <;> simp_all [mergedAt, mergePatch, isObject]
  | cons segment rest ih =>
    cases segment with
    | field name => exact ih _
    | index position => rfl

/-- A value below a list takes the place of what was there. -/
theorem mergedAt_of_index (h : .index position ∈ path) (target : Json) :
    mergedAt v path target = v := by
  induction path generalizing target with
  | nil => cases h
  | cons segment rest ih =>
    cases segment with
    | field name =>
      obtain habsurd | h := List.mem_cons.mp h
      · cases habsurd
      · exact ih h _
    | index position => rfl

end Json

/-- A value is set below a field of the body. -/
theorem Resource.setField_eq_ok {path outer inner : String} {new : Json} {r r' : Resource}
    (hparse : FieldPath.parse path = .ok [.field outer, .field inner]) :
    r.setField path new = .ok r' ↔ ∃ fields,
      Json.fieldsForWriting inner ((r.body.get? outer).getD .null) = .ok fields ∧
      r' = { r with body := r.body.insert outer (.object (fields.insert inner new)) } := by
  have hbody : Json.fieldsForWriting outer (.object r.body) = .ok r.body := rfl
  simp only [setField, Json.set, hparse, bind, Except.bind, Json.write, hbody]
  cases Json.fieldsForWriting inner ((r.body.get? outer).getD .null) <;>
    simp [pure, Except.pure, Json.fields, eq_comm]

end ResourceComposition
