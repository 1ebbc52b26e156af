import ResourceComposition.FieldPath.Bounded
import ResourceComposition.Proofs.Notation
import ResourceComposition.Proofs.Traversal

/-!
# Growing lists

The lists on the way of a path that are too short for their indexes are given the lengths
`Json.lengthsFor`, counted without a bound. Each is greater by one than an index, and indexes that are
read fit 64 bits, so what does not fit is one length only, and it is asked for exactly where the greatest
index leads beyond a list, or to where nothing is (`Json.mem_lengthsFor`).

At every other length the sum is right, and the list is filled up as it should be (`Json.grown_eq`). At
that one it starts again at zero, and the list is empty (`Json.grown_greatest`). So writing breaks down
exactly if that length is asked for, and does what writing without a bound does otherwise
(`Json.setBounded?_growth`).
-/

namespace ResourceComposition.Json

open Text (maxUInt64)

variable {value new : Json} {name : String} {position n : Nat} {rest path : FieldPath}
  {items : List Json}

/-- The lengths that lists are given on the way of a path, in order. -/
def lengthsFor : FieldPath → Json → List Nat
  | [], _ => []
  | .field name :: rest, value =>
    match fieldsForWriting name value with
    | .error _ => []
    | .ok fields => lengthsFor rest ((Dict.get? fields name).getD .null)
  | .index position :: rest, value =>
    match itemsForWriting position value with
    | .error _ => []
    | .ok items =>
      (if items.length ≤ position then [position + 1] else []) ++
        lengthsFor rest (items[position]?.getD .null)

/-- A path leads to where nothing is, or to a list that has no item at an index. -/
def EndsBefore (position : Nat) (value : Json) (path : FieldPath) : Prop :=
  value.follow? path = .ok none ∨
    ∃ items, value.follow? path = .ok (some (.array items)) ∧ items.length ≤ position

/-! ### Lists made long enough -/

theorem lengthFor_of_lt (h : position < maxUInt64) : lengthFor position = position + 1 := by
  unfold lengthFor
  have hmax : maxUInt64 = 18446744073709551615 := rfl
  rw [UInt64.toNat_add, UInt64.toNat_ofNat', UInt64.toNat_one]
  omega

theorem lengthFor_greatest : lengthFor maxUInt64 = 0 := rfl

/-- A list is filled up for all indexes but the greatest, and for that one too if it is long enough. -/
theorem grown_eq (h : position < maxUInt64 ∨ position < items.length) :
    grown items position = padded items (position + 1) := by
  unfold grown
  split
  · next hshort =>
    have hlt : position < maxUInt64 := h.resolve_right (Nat.not_lt.mpr hshort)
    have hlength : (padded items (position + 1)).length = position + 1 := by
      rw [padded, List.length_append, List.length_replicate]
      omega
    rw [resized, lengthFor_of_lt hlt, List.take_of_length_le (Nat.le_of_eq hlength)]
  · next hlong =>
    exact (padded_of_getElem? (List.getElem?_eq_getElem (Nat.not_le.mp hlong))).symm

/-- A list that has no item at the greatest index is emptied for it. -/
theorem grown_greatest (h : items.length ≤ maxUInt64) : grown items maxUInt64 = [] := by
  rw [grown, if_pos h, resized, lengthFor_greatest, List.take_zero]

/-- Once a list is filled up, the item is there. -/
theorem getElem?_padded_self (items : List Json) (position : Nat) :
    (padded items (position + 1))[position]? = some (items[position]?.getD .null) := by
  have hlt : position < (padded items (position + 1)).length := length_padded ..
  rw [← getD_padded items (position + 1), List.getElem?_eq_getElem hlt, Option.getD_some]

/-! ### Which lengths are asked for -/

theorem endsBefore_nil : EndsBefore position value [] ↔
    ∃ items, itemsForWriting position value = .ok items ∧ items.length ≤ position := by
  cases value <;> simp [EndsBefore, follow?, isNull, itemsForWriting]

theorem endsBefore_field : EndsBefore position value (.field name :: rest) ↔
    ∃ fields, fieldsForWriting name value = .ok fields ∧
      EndsBefore position ((fields.get? name).getD .null) rest := by
  cases hfields : fieldsForWriting name value with
  | error fault => simp [EndsBefore, (follow?_of_fieldsForWriting_error hfields rest).2]
  | ok fields => simp [EndsBefore, follow?_of_fieldsForWriting hfields]

theorem endsBefore_index {position' : Nat} : EndsBefore position value (.index position' :: rest) ↔
    ∃ items, itemsForWriting position' value = .ok items ∧
      EndsBefore position (items[position']?.getD .null) rest := by
  cases hitems : itemsForWriting position' value with
  | error fault => simp [EndsBefore, (follow?_of_itemsForWriting_error hitems rest).2]
  | ok items => simp [EndsBefore, follow?_of_itemsForWriting hitems]

/-- An index on a path comes first, or later. -/
theorem exists_index_cons {segment : Segment} {P : FieldPath → Nat → Prop} :
    (∃ before position after, segment :: rest = before ++ .index position :: after ∧ P before position) ↔
      (∃ position, segment = .index position ∧ P [] position) ∨
        ∃ before position after, rest = before ++ .index position :: after ∧
          P (segment :: before) position := by
  constructor
  · rintro ⟨before, position, after, hpath, h⟩
    cases before with
    | nil =>
      obtain ⟨rfl, rfl⟩ := List.cons.inj hpath
      exact .inl ⟨position, rfl, h⟩
    | cons first before =>
      obtain ⟨rfl, rfl⟩ := List.cons.inj hpath
      exact .inr ⟨before, position, after, rfl, h⟩
  · rintro (⟨position, rfl, h⟩ | ⟨before, position, after, rfl, h⟩)
    · exact ⟨[], position, rest, rfl, h⟩
    · exact ⟨segment :: before, position, after, rfl, h⟩

theorem mem_lengthsFor_field : n ∈ lengthsFor (.field name :: rest) value ↔
    ∃ fields, fieldsForWriting name value = .ok fields ∧
      n ∈ lengthsFor rest ((fields.get? name).getD .null) := by
  rw [lengthsFor]
  cases fieldsForWriting name value <;> simp

theorem mem_lengthsFor_index : n ∈ lengthsFor (.index position :: rest) value ↔
    (∃ items, itemsForWriting position value = .ok items ∧ items.length ≤ position) ∧ n = position + 1 ∨
      ∃ items, itemsForWriting position value = .ok items ∧
        n ∈ lengthsFor rest (items[position]?.getD .null) := by
  rw [lengthsFor]
  cases itemsForWriting position value with
  | error fault => simp
  | ok items => by_cases hshort : items.length ≤ position <;> simp [hshort]

/-- A list is given a length exactly if it has no item at the index, or if nothing is there. -/
theorem mem_lengthsFor : n ∈ lengthsFor path value ↔ ∃ before position after,
    path = before ++ .index position :: after ∧ EndsBefore position value before ∧ n = position + 1 := by
  induction path generalizing value with
  | nil => simp [lengthsFor]
  | cons segment rest ih =>
    rw [exists_index_cons]
    cases segment with
    | field name =>
      simp only [mem_lengthsFor_field, endsBefore_field, ih, reduceCtorEq, false_and, exists_false,
        false_or]
      constructor
      · rintro ⟨fields, hfields, before, position, after, hrest, hends, hn⟩
        exact ⟨before, position, after, hrest, ⟨fields, hfields, hends⟩, hn⟩
      · rintro ⟨before, position, after, hrest, ⟨fields, hfields, hends⟩, hn⟩
        exact ⟨fields, hfields, before, position, after, hrest, hends, hn⟩
    | index position =>
      rw [mem_lengthsFor_index]
      simp only [← endsBefore_nil, endsBefore_index, ih]
      constructor
      · rintro (⟨hends, hn⟩ | ⟨items, hitems, before, position', after, hrest, hends, hn⟩)
        · exact .inl ⟨position, rfl, hends, hn⟩
        · exact .inr ⟨before, position', after, hrest, ⟨items, hitems, hends⟩, hn⟩
      · rintro (⟨position', hposition, hends, hn⟩ |
          ⟨before, position', after, hrest, ⟨items, hitems, hends⟩, hn⟩)
        · obtain rfl := Segment.index.inj hposition
          exact .inl ⟨hends, hn⟩
        · exact .inr ⟨items, hitems, before, position', after, hrest, hends, hn⟩

/-! ### Writing -/

/-- Writing breaks down exactly if the one length is asked for that does not fit, and does what it does
without a bound otherwise. -/
theorem writeBounded?_eq (hpath : ∀ segment ∈ path, segment.Nameable) : writeBounded? new path value =
    if maxUInt64 + 1 ∈ lengthsFor path value then none else some (writeInPlace new path value) := by
  induction path generalizing value with
  | nil => simp [writeBounded?, writeInPlace, lengthsFor]
  | cons segment rest ih =>
    obtain ⟨hsegment, hrest⟩ := List.forall_mem_cons.mp hpath
    cases segment with
    | field name =>
      rw [writeBounded?, writeInPlace, lengthsFor]
      cases fieldsForWriting name value with
      | error fault => simp
      | ok fields =>
        simp only [Dict.getD_insertIfNew, ih hrest]
        split <;> rfl
    | index position =>
      rw [writeBounded?, writeInPlace, lengthsFor]
      cases itemsForWriting position value with
      | error fault => simp
      | ok items =>
        by_cases hgreatest : items.length ≤ position ∧ position = maxUInt64
        · obtain ⟨hshort, rfl⟩ := hgreatest
          simp [grown_greatest hshort, hshort]
        · have hfits : position < maxUInt64 ∨ position < items.length := by
            have hle : position ≤ maxUInt64 := hsegment
            omega
          have hother : maxUInt64 + 1 ∉ (if items.length ≤ position then [position + 1] else []) := by
            split
            · simp only [List.mem_singleton]
              omega
            · exact List.not_mem_nil
          simp only [grown_eq hfits, getElem?_padded_self, Option.getD_some, List.mem_append, hother,
            false_or, Option.bind_eq_bind, Option.bind_some, ih hrest]
          split <;> rfl

/-- Writing in place at a path that is read asks for no length beyond the one after the greatest that fits
64 bits. That one it asks for exactly if the greatest index leads beyond a list, or to where nothing is;
then it breaks down. Otherwise all lengths fit, and it fills up the lists on the way and puts the value
there, or ends in the fault of it, as if there were no bound. -/
theorem setBounded?_growth {text : String} (hparse : FieldPath.parse text = .ok path) (value new : Json) :
    (∀ n ∈ lengthsFor path value, n ≤ maxUInt64 + 1) ∧
      (maxUInt64 + 1 ∈ lengthsFor path value ↔ ∃ before after,
        path = before ++ .index maxUInt64 :: after ∧ EndsBefore maxUInt64 value before) ∧
      value.setBounded? text new =
        if maxUInt64 + 1 ∈ lengthsFor path value then none else some (value.setInPlace text new) := by
  have hname : ∀ segment ∈ path, segment.Nameable := (FieldPath.nameable_of_parse hparse).2
  refine ⟨fun n hn => ?_, ?_, ?_⟩
  · obtain ⟨before, position, after, rfl, -, rfl⟩ := mem_lengthsFor.mp hn
    have hle : position ≤ maxUInt64 := hname (.index position) (by simp)
    omega
  · rw [mem_lengthsFor]
    constructor
    · rintro ⟨before, position, after, hpath, hends, hn⟩
      obtain rfl := Nat.succ.inj hn
      exact ⟨before, after, hpath, hends⟩
    · rintro ⟨before, after, hpath, hends⟩
      exact ⟨before, maxUInt64, after, hpath, hends, rfl⟩
  · rw [setBounded?, setInPlace, hparse]
    simp only [writeBounded?_eq hname]
    split <;> rfl

/-- The third tag is put where there is one only. -/
theorem tag_grown :
    let value : Json := .object [("tags", .array [.string "cool"])]
    ∃ path, FieldPath.parse "tags[2]" = .ok path ∧ lengthsFor path value = [3] ∧
      value.setBounded? "tags[2]" (.string "new") =
        some (.ok (), .object [("tags", .array [.string "cool", .null, .string "new"])]) := by
  intro value
  have hparse : FieldPath.parse "tags[2]" = .ok [.field "tags", .index 2] := rfl
  have hlengths : lengthsFor [.field "tags", .index 2] value = [3] := by decide +kernel
  obtain ⟨-, -, hset⟩ := setBounded?_growth hparse value (.string "new")
  have hfits : maxUInt64 + 1 ∉ lengthsFor [.field "tags", .index 2] value := by
    rw [hlengths]
    decide
  rw [if_neg hfits] at hset
  exact ⟨_, hparse, hlengths, hset.trans (by decide +kernel)⟩

/-- The greatest index that can be read asks for a length that does not fit, and instead of an item of a
new list there is none. -/
theorem greatest_index_breaks :
    let text := "tags[18446744073709551615]"
    ∃ path, FieldPath.parse text = .ok path ∧
      (¬ ∀ n ∈ lengthsFor path .null, n ≤ maxUInt64) ∧ grown [] maxUInt64 = [] ∧
      Json.null.setBounded? text (.string "new") = none := by
  refine ⟨[.field "tags", .index maxUInt64], rfl, ?_, ?_, ?_⟩
  · decide +kernel
  · decide +kernel
  · decide +kernel

end ResourceComposition.Json
