import ResourceComposition.Proofs.Rewriting

/-!
# What shows through an overlay

A list of keys is looked up in a value one key at a time (`Json.lookup?`). In one value laid over
another there are three cases, and each list of keys falls into one. Where the upper value has an
object, there is an object. At and below anything else that the upper value has, the upper value alone
counts, nulls included. And where it lacks a key, the lower value shows through unchanged.

All three follow from one equation: what stands at a place that the upper value has is what the lower
value has there, or null, with that of the upper value laid over it (`Json.lookup?_overlay`).
-/

namespace ResourceComposition.Json

variable {lower upper value v : Json} {keys above below : List String} {key : String}

/-- The value that a list of keys leads to, one object inside the other. -/
def lookup? : List String → Json → Option Json
  | [], value => some value
  | key :: rest, value => (value.field? key).bind (lookup? rest)

theorem lookup?_append : lookup? (above ++ below) value =
    (lookup? above value).bind (lookup? below) := by
  induction above generalizing value with
  | nil => rfl
  | cons key rest ih =>
    rw [List.cons_append, lookup?, lookup?]
    cases value.field? key with
    | none => rfl
    | some child => exact ih

/-- What the last keys lead to, from where the first keys have led. -/
theorem lookup?_below (h : lookup? above value = some v) :
    lookup? (above ++ below) value = lookup? below v := by
  rw [lookup?_append, h]
  rfl

/-- Nothing but null stands below a place that is not there. -/
theorem getD_lookup?_cons : (lookup? (key :: keys) value).getD .null =
    (lookup? keys ((value.field? key).getD .null)).getD .null := by
  rw [lookup?]
  cases value.field? key with
  | some child => rfl
  | none => cases keys <;> rfl

theorem Ordered.lookup? (h : value.Ordered) (hv : Json.lookup? keys value = some v) : v.Ordered := by
  induction keys generalizing value with
  | nil => exact Option.some.inj hv ▸ h
  | cons key rest ih =>
    obtain ⟨child, hchild, hv⟩ := Option.bind_eq_some_iff.mp hv
    exact ih (h.field? hchild) hv

/-- Where the upper value has something, that is laid over what the lower value has there. -/
theorem lookup?_overlay (hupper : upper.Ordered) (h : lookup? keys upper = some v) :
    lookup? keys (lower.overlay upper) = some (((lookup? keys lower).getD .null).overlay v) := by
  induction keys generalizing lower upper with
  | nil =>
    obtain rfl := Option.some.inj h
    rfl
  | cons key rest ih =>
    obtain ⟨child, hchild, hv⟩ := Option.bind_eq_some_iff.mp h
    cases upper with
    | object fields =>
      rw [lookup?, field?_overlay_object lower hupper.1, show Dict.get? fields key = _ from hchild,
        getD_lookup?_cons]
      exact ih (hupper.field? hchild) hv
    | _ => simp [field?, Json.fields] at hchild

/-! ### The three cases -/

/-- The keys lead to an object. -/
def HasObject (value : Json) (keys : List String) : Prop :=
  ∃ v, lookup? keys value = some v ∧ v.isObject = true

/-- The keys, or the first of them, lead to something that is no object. -/
def Covers (value : Json) (keys : List String) : Prop :=
  ∃ above below v, keys = above ++ below ∧ lookup? above value = some v ∧ v.isObject = false

/-- The first of the keys lead to an object that lacks the next one. -/
def LeavesOpen (value : Json) (keys : List String) : Prop :=
  ∃ above key below v, keys = above ++ key :: below ∧ lookup? above value = some v ∧
    v.isObject = true ∧ v.field? key = none

/-- Keys lead to an object, or are covered, or left open. -/
theorem lookup?_cases (value : Json) (keys : List String) :
    value.HasObject keys ∨ value.Covers keys ∨ value.LeavesOpen keys := by
  induction keys generalizing value with
  | nil =>
    cases hobject : value.isObject with
    | true => exact .inl ⟨value, rfl, hobject⟩
    | false => exact .inr (.inl ⟨[], [], value, rfl, rfl, hobject⟩)
  | cons key rest ih =>
    cases hobject : value.isObject with
    | false => exact .inr (.inl ⟨[], key :: rest, value, rfl, rfl, hobject⟩)
    | true =>
      cases hchild : value.field? key with
      | none => exact .inr (.inr ⟨[], key, rest, value, rfl, rfl, hobject, hchild⟩)
      | some child =>
        have hstep (keys : List String) : lookup? (key :: keys) value = lookup? keys child := by
          rw [lookup?, hchild]
          rfl
        obtain ⟨v, hv, hv'⟩ | ⟨above, below, v, rfl, hv, hv'⟩ |
          ⟨above, next, below, v, rfl, hv, hv', hnone⟩ := ih child
        · exact .inl ⟨v, (hstep rest).trans hv, hv'⟩
        · exact .inr (.inl ⟨key :: above, below, v, rfl, (hstep above).trans hv, hv'⟩)
        · exact .inr (.inr ⟨key :: above, next, below, v, rfl, (hstep above).trans hv, hv', hnone⟩)

theorem hasObject_overlay (hupper : upper.Ordered) (h : upper.HasObject keys) :
    (lower.overlay upper).HasObject keys := by
  obtain ⟨v, hv, hobject⟩ := h
  obtain ⟨fields, rfl⟩ := exists_fields hobject
  exact ⟨_, lookup?_overlay hupper hv, isObject_overlay_object _ fields⟩

theorem lookup?_overlay_of_covers (hupper : upper.Ordered) (h : upper.Covers keys) :
    lookup? keys (lower.overlay upper) = lookup? keys upper := by
  obtain ⟨above, below, v, rfl, hv, hnot⟩ := h
  rw [lookup?_below (lookup?_overlay hupper hv), overlay_of_not_object hnot, lookup?_below hv]

theorem lookup?_overlay_of_leavesOpen (hupper : upper.Ordered) (h : upper.LeavesOpen keys) :
    lookup? keys (lower.overlay upper) = lookup? keys lower := by
  obtain ⟨above, key, below, v, rfl, hv, hobject, hnone⟩ := h
  obtain ⟨fields, rfl⟩ := exists_fields hobject
  rw [lookup?_below (lookup?_overlay hupper hv), lookup?,
    field?_overlay_object _ (hupper.lookup? hv).1, show Dict.get? fields key = none from hnone,
    lookup?_append]
  cases lookup? above lower <;> rfl

/-- Lay one value over another. Where the upper value has an object, there is an object; where it
covers a place, it counts alone; and where it leaves a place open, the lower value counts. One of
these is the case at each place. So laying the upper value over the result again changes nothing. -/
theorem overlay_layers (hlower : lower.Ordered) (hupper : upper.Ordered) :
    (∀ keys, (upper.HasObject keys ∨ upper.Covers keys ∨ upper.LeavesOpen keys) ∧
      (upper.HasObject keys → (lower.overlay upper).HasObject keys) ∧
      (upper.Covers keys → lookup? keys (lower.overlay upper) = lookup? keys upper) ∧
      (upper.LeavesOpen keys → lookup? keys (lower.overlay upper) = lookup? keys lower)) ∧
    (lower.overlay upper).overlay upper = lower.overlay upper :=
  ⟨fun keys => ⟨lookup?_cases upper keys, hasObject_overlay hupper,
    lookup?_overlay_of_covers hupper, lookup?_overlay_of_leavesOpen hupper⟩,
    overlay_overlay hlower hupper⟩

/-- A number is hidden by an object and a list by a null, and a label that is not mentioned stays. -/
theorem labels_layered :
    let lower : Json := .object [
      ("metadata", .object [("labels", .object [("keep", .string "me")]), ("name", .string "cd")]),
      ("spec", .object [("size", .int 1), ("tags", .array [.string "a"])])]
    let upper : Json := .object [
      ("metadata", .object [("labels", .object [("add", .null)])]),
      ("spec", .object [("size", .object [("min", .int 2)]), ("tags", .null)])]
    lower.Ordered ∧ upper.Ordered ∧ (lower.overlay upper).HasObject ["spec", "size"] ∧
      lookup? ["spec", "tags"] (lower.overlay upper) = some .null ∧
      lookup? ["metadata", "labels", "keep"] (lower.overlay upper) = some (.string "me") ∧
      (lower.overlay upper).overlay upper = lower.overlay upper := by
  intro lower upper
  have hlower : lower.Ordered := by decide
  have hupper : upper.Ordered := by decide
  obtain ⟨hkeys, hagain⟩ := overlay_layers hlower hupper
  have hsize : upper.HasObject ["spec", "size"] := ⟨_, rfl, rfl⟩
  have htags : upper.Covers ["spec", "tags"] := ⟨["spec", "tags"], [], _, rfl, rfl, rfl⟩
  have hkeep : upper.LeavesOpen ["metadata", "labels", "keep"] :=
    ⟨["metadata", "labels"], "keep", [], _, rfl, rfl, rfl, rfl⟩
  exact ⟨hlower, hupper, (hkeys _).2.1 hsize, (hkeys _).2.2.1 htags, (hkeys _).2.2.2 hkeep, hagain⟩

end ResourceComposition.Json
