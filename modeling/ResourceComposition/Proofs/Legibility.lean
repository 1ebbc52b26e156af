import ResourceComposition.Proofs.Conditions
import ResourceComposition.Proofs.Rewriting

/-!
# Reading, writing and reading again

Metadata are not always written as they were read: a time may be given in a relaxed form, to the
nanosecond or with an offset, and comes out in one form only, and a part that is null is left out.
But what was read once is written so that it is read the same from then on. `Decode.Readable` says
so of data of any form, `Decode.Stable` of all data that a decoder gives, and `Metadata.Legible` of
the parts of metadata that are not legible as such.
-/

namespace ResourceComposition

namespace Decode

variable {α : Type} {d item : Decoder α} {write : α → Json} {entries entries' : Dict Json}
  {name : String} {o : Option α}

/-! ### Data that is read as it was written -/

/-- Data is read as it was written, and not written as a null, which would count as left out. -/
def Readable (d : Decoder α) (write : α → Json) (a : α) : Prop :=
  d.meaning (write a) = some a ∧ write a ≠ .null

/-- What is read from anything but a null is written so that it is read again. -/
def Stable (d : Decoder α) (write : α → Json) : Prop :=
  ∀ value a, value ≠ .null → d.meaning value = some a → Readable d write a

theorem readable_string (s : String) : Readable string .string s := ⟨rfl, by simp⟩

theorem readable_owner (owner : OwnerReference) :
    Readable OwnerReference.decode OwnerReference.encode owner :=
  ⟨owner.meaning_encode, nofun⟩

theorem stable_any : Stable any id := by
  rintro value _ hvalue ⟨⟩
  exact ⟨rfl, hvalue⟩

theorem stable_int64 : Stable int64 .int := by
  intro value n _ h
  refine ⟨?_, by simp⟩
  cases value with
  | int k =>
    simp only [int64, intWithin, Option.ite_none_right_eq_some, Option.some.injEq] at h ⊢
    obtain ⟨hbounds, rfl⟩ := h
    exact ⟨hbounds, trivial⟩
  | _ => cases h

/-- A point in time to the second. -/
abbrev second : Decoder Instant := instant.map Instant.wholeSecond

theorem stable_second : Stable second fun t => .string t.render := by
  intro value t _ h
  obtain ⟨read, hread, rfl⟩ := Option.map_eq_some_iff.mp h
  have hread := instant_eq_some hread
  have hvalid : read.wholeSecond.Valid := { hread with nanosecond := by simp [Instant.wholeSecond] }
  refine ⟨?_, nofun⟩
  simp only [second, Decoder.map, instant, Instant.parse_render hvalid, Except.toOption]
  rfl

theorem readable_list {as : List α} (h : ∀ a ∈ as, Readable item write a) :
    Readable (list item) (fun as => .array (as.map write)) as := by
  refine ⟨?_, nofun⟩
  induction as with
  | nil => rfl
  | cons a rest ih =>
    obtain ⟨ha, hrest⟩ := List.forall_mem_cons.mp h
    have hrest := ih hrest
    simp only [list] at hrest ⊢
    simp [ha.1, hrest]

theorem exists_of_meaning_list {items : List Json} {as : List α}
    (h : (list item).meaning (.array items) = some as) :
    ∀ a ∈ as, ∃ value ∈ items, item.meaning value = some a := by
  induction items generalizing as with
  | nil =>
    obtain rfl := Option.some.inj h
    exact nofun
  | cons value rest ih =>
    simp only [list, List.mapM_cons, bind, Option.bind_eq_some_iff] at h
    obtain ⟨a, ha, more, hmore, has⟩ := h
    obtain rfl := Option.some.inj has
    refine List.forall_mem_cons.mpr ⟨⟨value, List.mem_cons_self, ha⟩, fun b hb => ?_⟩
    obtain ⟨value', hvalue', hread⟩ := ih hmore b hb
    exact ⟨value', List.mem_cons_of_mem _ hvalue', hread⟩

theorem stable_list (hitem : Stable item write) (hnull : item.meaning .null = none) :
    Stable (list item) fun as => .array (as.map write) := by
  intro value as _ h
  cases value with
  | array items =>
    refine readable_list fun a ha => ?_
    obtain ⟨value, -, hvalue⟩ := exists_of_meaning_list h a ha
    refine hitem value a ?_ hvalue
    rintro rfl
    rw [hnull] at hvalue
    cases hvalue
  | _ => cases h

/-! ### Texts by name -/

theorem meaning_texts {value : Json} {texts : Dict String} :
    (dict string).meaning value = some texts ↔ value = Metadata.encodeTexts texts := by
  cases value with
  | object fields =>
    simp only [dict, Metadata.encodeTexts, Json.object.injEq]
    induction fields generalizing texts with
    | nil => cases texts <;> simp [Dict.mapValues]
    | cons entry rest ih =>
      obtain ⟨key, v⟩ := entry
      rw [List.mapM_cons]
      constructor
      · intro h
        obtain ⟨first, hfirst, h⟩ := Option.bind_eq_some_iff.mp h
        obtain ⟨s, hs, hfirst⟩ := Option.bind_eq_some_iff.mp hfirst
        obtain ⟨more, hmore, h⟩ := Option.bind_eq_some_iff.mp h
        obtain rfl := Option.some.inj hfirst
        obtain rfl := Option.some.inj h
        rw [ih.mp hmore]
        cases v <;> cases hs
        rfl
      · intro h
        cases texts with
        | nil => cases h
        | cons first more =>
          obtain ⟨hfirst, hmore⟩ := List.cons.inj h
          obtain ⟨rfl, rfl⟩ := Prod.mk.inj hfirst
          rw [ih.mpr hmore]
          rfl
  | _ => simp [dict, Metadata.encodeTexts]

theorem readable_texts (texts : Dict String) :
    Readable (dict string) Metadata.encodeTexts texts := ⟨meaning_texts.mpr rfl, nofun⟩

/-! ### Fields -/

/-- A field of a record is read as it was written, also if it was left out. -/
theorem optional_of_readable (hget : entries.get? name = o.map write)
    (h : ∀ a ∈ o, Readable d write a) : (optional name d).meaning entries = some o := by
  cases o with
  | none => simp [optional, hget]
  | some a =>
    obtain ⟨hread, hne⟩ := h a rfl
    simp only [optional, hget, Option.map_some, hread]

theorem readable_of_optional (hd : Stable d write)
    (h : (optional name d).meaning entries = some o) : ∀ a ∈ o, Readable d write a := by
  rintro a rfl
  simp only [optional] at h
  split at h
  · cases h
  · cases h
  · next value hne hvalue =>
    obtain ⟨read, hread, hsome⟩ := Option.map_eq_some_iff.mp h
    obtain rfl := Option.some.inj hsome
    exact hd value read hne hread

/-- A field over which something was laid is read again with the same laid over it: what was laid
over it is read as before, and without any such thing the field is read as it was written. -/
theorem optional_laid {top? below? : Option Json} {first : Option α}
    (hobject : ∀ fields, d.meaning (.object fields) = none)
    (hget : entries.get? name = Json.laid top? below?)
    (h : (optional name d).meaning entries = some first)
    (hget' : entries'.get? name = Json.laid top? (o.map write)) (ho : ∀ a ∈ o, Readable d write a) :
    (optional name d).meaning entries' = some (if top?.isSome then first else o) := by
  cases top? with
  | none => exact optional_of_readable hget' ho
  | some top =>
    by_cases htop : top.isObject = true
    · -- No data stands for an object, so none was laid over the field.
      obtain ⟨source, rfl⟩ := Json.exists_fields htop
      obtain ⟨fields, hfields⟩ :=
        Json.exists_fields (Json.isObject_overlay_object (below?.getD .null) source)
      rw [Json.laid, hfields] at hget
      simp [optional, hget, hobject] at h
    · rw [Json.laid, Json.overlay_of_not_object (by simpa using htop)] at hget hget'
      simpa [optional, hget, hget'] using h

end Decode

/-! ### Records -/

namespace ManagedFields

open Decode

/-- Managed fields are read from the fields of an object. -/
structure ReadFrom (entries : Dict Json) (m : ManagedFields) : Prop where
  /-- The version of the type. -/
  apiVersion : (optional "apiVersion" string).meaning entries = some m.apiVersion
  /-- The form of the list. -/
  fieldsType : (optional "fieldsType" string).meaning entries = some m.fieldsType
  /-- The list. -/
  fieldsV1 : (optional "fieldsV1" any).meaning entries = some m.fieldsV1
  /-- The writer. -/
  manager : (optional "manager" string).meaning entries = some m.manager
  /-- What the writer did. -/
  operation : (optional "operation" string).meaning entries = some m.operation
  /-- The part of the resource. -/
  subresource : (optional "subresource" string).meaning entries = some m.subresource
  /-- The time. -/
  time : (optional "time" second).meaning entries = some m.time

variable {m : ManagedFields} {value : Json}

theorem meaning_eq_some : decode.meaning value = some m ↔
    ∃ entries, value = .object entries ∧ m.ReadFrom entries := by
  refine (meaning_record (by decide)).trans (exists_congr fun entries => and_congr_right' ?_)
  simp only [meaning_seq, meaning_map]
  constructor
  · rintro ⟨_, ⟨_, ⟨_, ⟨_, ⟨_, ⟨_, ⟨_, h1, rfl⟩, _, h2, rfl⟩, _, h3, rfl⟩, _, h4, rfl⟩, _, h5, rfl⟩,
      _, h6, rfl⟩, _, h7, rfl⟩
    exact ⟨h1, h2, h3, h4, h5, h6, h7⟩
  · rintro ⟨h1, h2, h3, h4, h5, h6, h7⟩
    exact ⟨_, ⟨_, ⟨_, ⟨_, ⟨_, ⟨_, ⟨_, h1, rfl⟩, _, h2, rfl⟩, _, h3, rfl⟩, _, h4, rfl⟩, _, h5, rfl⟩,
      _, h6, rfl⟩, _, h7, rfl⟩

theorem stable : Stable decode encode := by
  intro value m _ h
  obtain ⟨entries, rfl, hread⟩ := meaning_eq_some.mp h
  refine ⟨meaning_eq_some.mpr ⟨_, Json.ofPresent_eq _, ?_⟩, nofun⟩
  constructor
  case fieldsV1 =>
    exact optional_of_readable (by simp) (readable_of_optional stable_any hread.fieldsV1)
  case time =>
    exact optional_of_readable (by simp) (readable_of_optional stable_second hread.time)
  all_goals exact optional_of_readable (by simp) fun s _ => readable_string s

end ManagedFields

namespace Metadata

open Decode

/-- Metadata are read from the fields of an object. -/
structure ReadFrom (entries : Dict Json) (m : Metadata) : Prop where
  /-- The annotations. -/
  annotations : (optional "annotations" (dict string)).meaning entries = some m.annotations
  /-- The time of creation. -/
  creationTimestamp : (optional "creationTimestamp" second).meaning entries = some m.creationTimestamp
  /-- The time that deletion leaves. -/
  deletionGracePeriodSeconds : (optional "deletionGracePeriodSeconds" int64).meaning entries =
    some m.deletionGracePeriodSeconds
  /-- The time of deletion. -/
  deletionTimestamp : (optional "deletionTimestamp" second).meaning entries = some m.deletionTimestamp
  /-- What has to be done before the resource goes. -/
  finalizers : (optional "finalizers" (list string)).meaning entries = some m.finalizers
  /-- The beginning of a name that is to be made up. -/
  generateName : (optional "generateName" string).meaning entries = some m.generateName
  /-- How often the wanted state has changed. -/
  generation : (optional "generation" int64).meaning entries = some m.generation
  /-- The labels. -/
  labels : (optional "labels" (dict string)).meaning entries = some m.labels
  /-- Who wrote which fields. -/
  managedFields : (optional "managedFields" (list ManagedFields.decode)).meaning entries =
    some m.managedFields
  /-- The name. -/
  name : (optional "name" string).meaning entries = some m.name
  /-- The namespace. -/
  ns : (optional "namespace" string).meaning entries = some m.ns
  /-- The owners. -/
  ownerReferences : (optional "ownerReferences" (list OwnerReference.decode)).meaning entries =
    some m.ownerReferences
  /-- The version of the stored resource. -/
  resourceVersion : (optional "resourceVersion" string).meaning entries = some m.resourceVersion
  /-- The address. -/
  selfLink : (optional "selfLink" string).meaning entries = some m.selfLink
  /-- The unique identifier. -/
  uid : (optional "uid" string).meaning entries = some m.uid

/-- The parts of metadata that may not be read as they are written are read so. -/
structure Legible (m : Metadata) : Prop where
  /-- The time of creation. -/
  creationTimestamp : ∀ t ∈ m.creationTimestamp, Readable second (fun t => .string t.render) t
  /-- The time that deletion leaves. -/
  deletionGracePeriodSeconds : ∀ n ∈ m.deletionGracePeriodSeconds, Readable int64 .int n
  /-- The time of deletion. -/
  deletionTimestamp : ∀ t ∈ m.deletionTimestamp, Readable second (fun t => .string t.render) t
  /-- How often the wanted state has changed. -/
  generation : ∀ n ∈ m.generation, Readable int64 .int n
  /-- Who wrote which fields. -/
  managedFields : ∀ entries ∈ m.managedFields, Readable (list ManagedFields.decode)
    (fun entries => .array (entries.map ManagedFields.encode)) entries

variable {m : Metadata} {value : Json} {entries : Dict Json}

theorem meaning_eq_some : decode.meaning value = some m ↔
    ∃ entries, value = .object entries ∧ m.ReadFrom entries := by
  refine (meaning_record (by decide)).trans (exists_congr fun entries => and_congr_right' ?_)
  simp only [meaning_seq, meaning_map]
  constructor
  · rintro ⟨_, ⟨_, ⟨_, ⟨_, ⟨_, ⟨_, ⟨_, ⟨_, ⟨_, ⟨_, ⟨_, ⟨_, ⟨_, ⟨_, ⟨_, h1, rfl⟩, _, h2, rfl⟩, _, h3, rfl⟩,
      _, h4, rfl⟩, _, h5, rfl⟩, _, h6, rfl⟩, _, h7, rfl⟩, _, h8, rfl⟩, _, h9, rfl⟩, _, h10, rfl⟩,
      _, h11, rfl⟩, _, h12, rfl⟩, _, h13, rfl⟩, _, h14, rfl⟩, _, h15, rfl⟩
    exact ⟨h1, h2, h3, h4, h5, h6, h7, h8, h9, h10, h11, h12, h13, h14, h15⟩
  · rintro ⟨h1, h2, h3, h4, h5, h6, h7, h8, h9, h10, h11, h12, h13, h14, h15⟩
    exact ⟨_, ⟨_, ⟨_, ⟨_, ⟨_, ⟨_, ⟨_, ⟨_, ⟨_, ⟨_, ⟨_, ⟨_, ⟨_, ⟨_, ⟨_, h1, rfl⟩, _, h2, rfl⟩, _, h3, rfl⟩,
      _, h4, rfl⟩, _, h5, rfl⟩, _, h6, rfl⟩, _, h7, rfl⟩, _, h8, rfl⟩, _, h9, rfl⟩, _, h10, rfl⟩,
      _, h11, rfl⟩, _, h12, rfl⟩, _, h13, rfl⟩, _, h14, rfl⟩, _, h15, rfl⟩

theorem ReadFrom.legible (h : m.ReadFrom entries) : m.Legible where
  creationTimestamp := readable_of_optional stable_second h.creationTimestamp
  deletionGracePeriodSeconds := readable_of_optional stable_int64 h.deletionGracePeriodSeconds
  deletionTimestamp := readable_of_optional stable_second h.deletionTimestamp
  generation := readable_of_optional stable_int64 h.generation
  managedFields := readable_of_optional (stable_list ManagedFields.stable rfl) h.managedFields

/-- Legible metadata are read as they were written. -/
theorem meaning_encode (h : m.Legible) : decode.meaning m.encode = some m := by
  refine meaning_eq_some.mpr ⟨_, Json.ofPresent_eq _, ?_⟩
  constructor
  case annotations | labels => exact optional_of_readable (by simp) fun texts _ => readable_texts texts
  case creationTimestamp => exact optional_of_readable (by simp) h.creationTimestamp
  case deletionGracePeriodSeconds => exact optional_of_readable (by simp) h.deletionGracePeriodSeconds
  case deletionTimestamp => exact optional_of_readable (by simp) h.deletionTimestamp
  case finalizers =>
    exact optional_of_readable (by simp) fun names _ => readable_list fun s _ => readable_string s
  case generation => exact optional_of_readable (by simp) h.generation
  case managedFields => exact optional_of_readable (by simp) h.managedFields
  case ownerReferences =>
    exact optional_of_readable (by simp) fun owners _ => readable_list fun o _ => readable_owner o
  all_goals exact optional_of_readable (by simp) fun s _ => readable_string s

theorem legible_of_meaning (h : decode.meaning value = some m) : m.Legible := by
  obtain ⟨entries, -, hread⟩ := meaning_eq_some.mp h
  exact hread.legible

end Metadata

end ResourceComposition
