import ResourceComposition.FieldPath.Access
import ResourceComposition.Json.Overlay

/-!
# Fields in order

The fields of an object stand in increasing order of name, each name once. `Dict.Sorted` says so of
a dictionary, and `Json.Ordered` of a value and all values inside it. Writing keeps the order.

In order, a field of a combined value hangs on the fields of that name alone:
`get?_mergePatchFields` and `get?_overlayFields` say what it is. They ask for order in what is laid
on top only, since that is gone through entry by entry.
-/

namespace ResourceComposition

namespace Dict

variable {β γ : Type} {d target source : Dict β} {k : String} {v : β}

/-- The entries are in increasing order of key. -/
def Sorted (d : Dict β) : Prop := d.Pairwise fun a b => a.1 < b.1

instance (d : Dict β) : Decidable d.Sorted :=
  inferInstanceAs (Decidable (d.Pairwise fun a b => a.1 < b.1))

@[simp] theorem sorted_nil : Sorted ([] : Dict β) := .nil

theorem sorted_cons {entry : String × β} : Sorted (entry :: d) ↔
    (∀ other ∈ d, entry.1 < other.1) ∧ Sorted d := List.pairwise_cons

/-- The order hangs on the keys alone. -/
theorem sorted_iff_pairwise : d.Sorted ↔ (d.map (·.1)).Pairwise (· < ·) := List.pairwise_map.symm

theorem sorted_iff_keys {γ : Type} {e : Dict γ} (h : d.map (·.1) = e.map (·.1)) :
    d.Sorted ↔ e.Sorted := by
  rw [sorted_iff_pairwise, h, sorted_iff_pairwise]

theorem get?_eq_none : get? d k = none ↔ ∀ entry ∈ d, entry.1 ≠ k := by
  induction d with
  | nil => simp
  | cons entry rest ih =>
    rw [get?_cons, List.forall_mem_cons, ← ih]
    split <;> simp [*]

theorem mem_of_get? (h : get? d k = some v) : (k, v) ∈ d := by
  induction d with
  | nil => simp at h
  | cons entry rest ih =>
    obtain ⟨key, value⟩ := entry
    rw [get?_cons] at h
    split at h
    · next heq =>
      obtain rfl := Option.some.inj h
      exact heq ▸ List.mem_cons_self
    · exact List.mem_cons_of_mem _ (ih h)

/-- In order, nothing more stands under the first key. -/
theorem Sorted.get?_rest {entry : String × β} (h : Sorted (entry :: d)) :
    get? d entry.1 = none :=
  get?_eq_none.mpr fun other hmem heq =>
    String.lt_irrefl entry.1 (heq ▸ (sorted_cons.mp h).1 other hmem)

theorem Sorted.get?_of_mem (h : Sorted d) (hmem : (k, v) ∈ d) : get? d k = some v := by
  induction d with
  | nil => cases hmem
  | cons entry rest ih =>
    obtain ⟨hfirst, hrest⟩ := sorted_cons.mp h
    rw [get?_cons]
    obtain rfl | hmem := List.mem_cons.mp hmem
    · exact if_pos rfl
    · have hlt : entry.1 < k := hfirst (k, v) hmem
      have hne : entry.1 ≠ k := fun heq => String.lt_irrefl k (heq ▸ hlt)
      rw [if_neg hne]
      exact ih hrest hmem

/-- What is found among some of the entries is found among all of them. -/
theorem Sorted.get?_sublist {part : Dict β} (h : Sorted d) (hsub : part.Sublist d)
    (hget : get? part k = some v) : get? d k = some v :=
  h.get?_of_mem (hsub.subset (mem_of_get? hget))

theorem mem_insert {entry : String × β} (h : entry ∈ insert k v d) :
    entry = (k, v) ∨ entry ∈ d := by
  induction d with
  | nil => simpa [insert] using h
  | cons first rest ih =>
    unfold insert at h
    split at h
    · rcases List.mem_cons.mp h with h | h
      · exact .inl h
      · exact .inr (List.mem_cons_of_mem _ h)
    · split at h
      · simpa using h
      · rcases List.mem_cons.mp h with h | h
        · exact .inr (h ▸ List.mem_cons_self)
        · exact (ih h).imp id (List.mem_cons_of_mem _)

theorem Sorted.insert (h : Sorted d) : Sorted (insert k v d) := by
  induction d with
  | nil => simp [Dict.insert, sorted_cons]
  | cons first rest ih =>
    obtain ⟨hfirst, hrest⟩ := sorted_cons.mp h
    unfold Dict.insert
    split
    · next heq => exact sorted_cons.mpr ⟨heq ▸ hfirst, hrest⟩
    · next hne =>
      split
      · next hlt =>
        refine sorted_cons.mpr ⟨fun other hmem => ?_, h⟩
        rcases List.mem_cons.mp hmem with rfl | hmem
        · exact hlt
        · exact String.lt_trans hlt (hfirst other hmem)
      · next hge =>
        refine sorted_cons.mpr ⟨fun other hmem => ?_, ih hrest⟩
        rcases mem_insert hmem with rfl | hmem
        · exact Std.lt_of_le_of_ne (String.not_lt.mp hge) hne
        · exact hfirst other hmem

/-- Putting the value under a key that is there already changes nothing. -/
theorem Sorted.insert_of_get? (h : d.Sorted)
    (hget : get? d k = some v) : Dict.insert k v d = d := by
  induction d with
  | nil => cases hget
  | cons entry rest ih =>
    obtain ⟨key, value⟩ := entry
    rw [get?_cons] at hget
    rw [insert_cons]
    split at hget
    · next hk =>
      obtain rfl := Option.some.inj hget
      rw [if_pos hk, hk]
    · next hk =>
      obtain ⟨hfirst, hrest⟩ := sorted_cons.mp h
      have hlt : key < k := hfirst _ (mem_of_get? hget)
      rw [if_neg hk, if_neg (String.lt_asymm hlt), ih hrest hget]

theorem Sorted.erase (h : Sorted d) : Sorted (erase k d) := List.Pairwise.filter _ h

theorem Sorted.insertAll (h : Sorted target) : Sorted (insertAll target source) := by
  induction source generalizing target with
  | nil => exact h
  | cons entry rest ih => exact ih h.insert

theorem sorted_ofList {entries : List (String × β)} : Sorted (ofList entries) :=
  sorted_nil.insertAll

theorem get?_insertAll (h : Sorted source) :
    get? (insertAll target source) k = (get? source k).or (get? target k) := by
  induction source generalizing target with
  | nil => rfl
  | cons entry rest ih =>
    rw [show insertAll target (entry :: rest) = insertAll (insert entry.1 entry.2 target) rest
      from rfl, ih (sorted_cons.mp h).2, get?_insert, get?_cons]
    split
    · next heq => rw [← heq, h.get?_rest]; rfl
    · rfl

theorem get?_ofList {entries : List (String × β)} (h : Sorted entries) :
    get? (ofList entries) k = get? entries k := by
  simp [ofList, get?_insertAll h]

theorem get?_mapValues (f : β → γ) : get? (mapValues f d) k = (get? d k).map f := by
  induction d with
  | nil => rfl
  | cons entry rest ih =>
    rw [mapValues, List.map_cons, get?_cons, get?_cons]
    split
    · rfl
    · exact ih

theorem Sorted.mapValues (f : β → γ) (h : Sorted d) : Sorted (mapValues f d) :=
  List.pairwise_map.mpr h

end Dict

namespace Json

/-! ### Values in order -/

mutual

/-- All objects in a value have their fields in order. -/
def Ordered : Json → Prop
  | .array items => OrderedItems items
  | .object fields => Dict.Sorted fields ∧ OrderedFields fields
  | .null | .bool _ | .int _ | .float _ | .string _ => True

/-- All objects in a list of values have their fields in order. -/
def OrderedItems : List Json → Prop
  | [] => True
  | item :: rest => Ordered item ∧ OrderedItems rest

/-- All objects in the values of fields have their fields in order. -/
def OrderedFields : List (String × Json) → Prop
  | [] => True
  | (_, value) :: rest => Ordered value ∧ OrderedFields rest

end

mutual

/-- Whether all objects in a value have their fields in order. -/
def decideOrdered : (v : Json) → Decidable v.Ordered
  | .array items => decideOrderedItems items
  | .object fields =>
    have := decideOrderedFields fields
    inferInstanceAs (Decidable (Dict.Sorted fields ∧ OrderedFields fields))
  | .null | .bool _ | .int _ | .float _ | .string _ => isTrue trivial

/-- Whether all objects in a list of values have their fields in order. -/
def decideOrderedItems : (items : List Json) → Decidable (OrderedItems items)
  | [] => isTrue trivial
  | item :: rest =>
    have := decideOrdered item
    have := decideOrderedItems rest
    inferInstanceAs (Decidable (item.Ordered ∧ OrderedItems rest))

/-- Whether all objects in the values of fields have their fields in order. -/
def decideOrderedFields : (fields : List (String × Json)) → Decidable (OrderedFields fields)
  | [] => isTrue trivial
  | (_, value) :: rest =>
    have := decideOrdered value
    have := decideOrderedFields rest
    inferInstanceAs (Decidable (value.Ordered ∧ OrderedFields rest))

end

instance : DecidablePred Ordered := decideOrdered

theorem orderedItems_iff {items : List Json} : OrderedItems items ↔ ∀ item ∈ items, item.Ordered := by
  induction items with
  | nil => simp [OrderedItems]
  | cons item rest ih => simp [OrderedItems, ih]

theorem orderedFields_iff {fields : Dict Json} :
    OrderedFields fields ↔ ∀ entry ∈ fields, entry.2.Ordered := by
  induction fields with
  | nil => simp [OrderedFields]
  | cons entry rest ih => simp [OrderedFields, ih]

theorem OrderedFields.get? {d : Dict Json} {k : String} {v : Json} (h : OrderedFields d)
    (hv : Dict.get? d k = some v) : v.Ordered := by
  induction d with
  | nil => simp at hv
  | cons entry rest ih =>
    rw [Dict.get?_cons] at hv
    split at hv
    · exact Option.some.inj hv ▸ h.1
    · exact ih h.2 hv

theorem Ordered.sorted {v : Json} (h : v.Ordered) : Dict.Sorted v.fields := by
  cases v with
  | object fields => exact h.1
  | _ => exact Dict.sorted_nil

theorem Ordered.field? {v w : Json} {name : String} (h : v.Ordered) (hw : v.field? name = some w) :
    w.Ordered := by
  cases v with
  | object fields => exact h.2.get? hw
  | _ => simp [Json.field?, fields] at hw

@[simp] theorem field?_object (fields : Dict Json) (name : String) :
    (Json.object fields).field? name = fields.get? name := rfl

/-! ### Combined values -/

variable {target : Dict Json} {k : String}

/-- A field of a patched object. -/
theorem get?_mergePatchFields {patch : Dict Json} (h : patch.Sorted) :
    (mergePatchFields target patch).get? k =
      match patch.get? k with
      | none => target.get? k
      | some .null => none
      | some v => some (mergePatch ((target.get? k).getD .null) v) := by
  induction patch generalizing target with
  | nil => simp [mergePatchFields]
  | cons entry rest ih =>
    obtain ⟨name, value⟩ := entry
    have hrest := (Dict.sorted_cons.mp h).2
    by_cases hk : name = k
    · subst hk
      have hnone : Dict.get? rest name = none := h.get?_rest
      cases value <;>
        simp [mergePatchFields, ih hrest, hnone, Dict.get?_cons, Dict.get?_erase]
    · cases value <;>
        simp [mergePatchFields, ih hrest, hk, Dict.get?_cons, Dict.get?_erase, Dict.get?_insert]

theorem sorted_mergePatchFields {patch : Dict Json} (h : target.Sorted) :
    (mergePatchFields target patch).Sorted := by
  induction patch generalizing target with
  | nil => simpa [mergePatchFields] using h
  | cons entry rest ih =>
    obtain ⟨name, value⟩ := entry
    cases value <;> exact ih (by first | exact h.erase | exact h.insert)

/-- A field of an overlay. -/
theorem get?_overlayFields {source : Dict Json} (h : source.Sorted) :
    (overlayFields target source).get? k =
      match source.get? k with
      | none => target.get? k
      | some v => some (overlay ((target.get? k).getD .null) v) := by
  induction source generalizing target with
  | nil => simp [overlayFields]
  | cons entry rest ih =>
    obtain ⟨name, value⟩ := entry
    have hrest := (Dict.sorted_cons.mp h).2
    rw [overlayFields, ih hrest, Dict.get?_insert, Dict.get?_cons]
    by_cases hk : name = k
    · subst hk
      have hnone : Dict.get? rest name = none := h.get?_rest
      simp [hnone]
    · simp [hk]

theorem sorted_overlayFields {source : Dict Json} (h : target.Sorted) :
    (overlayFields target source).Sorted := by
  induction source generalizing target with
  | nil => simpa [overlayFields] using h
  | cons entry rest ih => exact ih h.insert

/-! ### Writing at a path -/

variable {value new after : Json} {name : String} {rest : FieldPath}

/-- Writing below a field leaves all other fields as they are. -/
theorem write_field (h : write new (.field name :: rest) value = .ok after) :
    ∃ child, after = .object (value.fields.insert name child) := by
  cases value <;> simp only [write, fieldsForWriting] at h
  case null | object =>
    simp only [bind, Except.bind] at h
    split at h
    · cases h
    · exact ⟨_, (Except.ok.inj h).symm⟩
  all_goals cases h

theorem write_field_ne (h : write new (.field name :: rest) value = .ok after) (hk : name ≠ k) :
    after.field? k = value.field? k := by
  obtain ⟨child, rfl⟩ := write_field h
  exact Dict.get?_insert_of_ne _ _ hk

theorem write_field_sorted (h : write new (.field name :: rest) value = .ok after)
    (hvalue : value.fields.Sorted) : after.fields.Sorted := by
  obtain ⟨child, rfl⟩ := write_field h
  exact hvalue.insert

end Json

end ResourceComposition
