import ResourceComposition.Proofs.Forms
import ResourceComposition.Store.Memory

/-!
# Patching stored forms

The store patches the form it has with the form of a resource, all but its status, and counts up the
version. What stands in the form afterwards hangs on what the resource says: a text that the
resource gives takes the place of the one that was there, and one that it leaves out stays.
-/

namespace ResourceComposition

namespace Json

variable {form patch : Json}

/-- A field of a value patched with an object whose fields are in order. -/
theorem field?_mergePatch (form : Json) {fields : Dict Json} (h : fields.Sorted) (name : String) :
    (form.mergePatch (.object fields)).field? name =
      match fields.get? name with
      | none => form.field? name
      | some .null => none
      | some v => some (mergePatch ((form.field? name).getD .null) v) := by
  rw [mergePatch, field?_object, get?_mergePatchFields h]
  rfl

theorem text?_mergePatch (form : Json) {fields : Dict Json} (h : fields.Sorted) (name : String) :
    (form.mergePatch (.object fields)).text? name =
      match fields.get? name with
      | none => form.text? name
      | some v => v.string? := by
  rw [text?, field?_mergePatch form h]
  cases fields.get? name with
  | none => rfl
  | some v => cases v <;> simp [mergePatch, string?]

theorem sorted_mergePatch {fields : Dict Json} (h : form.fields.Sorted) :
    (form.mergePatch (.object fields)).fields.Sorted := by
  rw [mergePatch]
  exact sorted_mergePatchFields h

end Json

/-! ### Metadata -/

namespace Metadata

variable (m : Metadata) (value : Json)

theorem encode_fields_sorted : m.encode.fields.Sorted :=
  Json.sorted_present (by simp only [List.map]; decide)

theorem field?_merged (name : String) : (value.mergePatch m.encode).field? name =
    match m.encode.field? name with
    | none => value.field? name
    | some .null => none
    | some v => some (Json.mergePatch ((value.field? name).getD .null) v) :=
  Json.field?_mergePatch value m.encode_fields_sorted name

theorem text?_merged {name : String} {o : Option String}
    (h : m.encode.field? name = o.map .string) :
    (value.mergePatch m.encode).text? name = o.or (value.text? name) := by
  refine (Json.text?_mergePatch value m.encode_fields_sorted name).trans ?_
  rw [show m.encode.fields.get? name = _ from h]
  cases o <;> rfl

theorem name_merged :
    (value.mergePatch m.encode).text? "name" = m.name.or (value.text? "name") :=
  m.text?_merged value (by simp [encode, Json.ofPresent_eq])

theorem generateName_merged : (value.mergePatch m.encode).text? "generateName" =
    m.generateName.or (value.text? "generateName") :=
  m.text?_merged value (by simp [encode, Json.ofPresent_eq])

theorem ns_merged :
    (value.mergePatch m.encode).text? "namespace" = m.ns.or (value.text? "namespace") :=
  m.text?_merged value (by simp [encode, Json.ofPresent_eq])

theorem uid_merged : (value.mergePatch m.encode).text? "uid" = m.uid.or (value.text? "uid") :=
  m.text?_merged value (by simp [encode, Json.ofPresent_eq])

/-- Owners are not merged: those that are given take the place of all that were there. -/
theorem owners?_merged :
    owners? (value.mergePatch m.encode) = m.ownerReferences.or (owners? value) := by
  have h : m.encode.field? "ownerReferences" =
      m.ownerReferences.map fun owners => .array (owners.map OwnerReference.encode) := by
    simp [encode, Json.ofPresent_eq]
  rw [owners?, field?_merged, h]
  cases m.ownerReferences with
  | none => rfl
  | some owners =>
    simpa [Json.mergePatch] using Decode.list_map OwnerReference.meaning_encode owners

theorem notes_merged : notes (value.mergePatch m.encode) =
    (m.annotations.map fun texts =>
      Json.mergePatchFields (notes value) (texts.mapValues .string)).getD (notes value) := by
  have h : m.encode.field? "annotations" = m.annotations.map encodeTexts := by
    simp [encode, Json.ofPresent_eq]
  rw [notes, field?_merged, h]
  cases m.annotations <;> simp [notes, encodeTexts, Json.mergePatch, Json.fields]

theorem note_merged {texts : Dict String} (htexts : m.annotations = some texts)
    (hsorted : texts.Sorted) {key note : String} (hnote : texts.get? key = some note) :
    (notes (value.mergePatch m.encode)).get? key = some (.string note) := by
  simp [notes_merged, htexts, Json.get?_mergePatchFields (hsorted.mapValues _),
    Dict.get?_mapValues, hnote, Json.mergePatch]

theorem sorted_notes_merged (h : (notes value).Sorted) :
    (notes (value.mergePatch m.encode)).Sorted := by
  rw [notes_merged]
  cases m.annotations with
  | none => exact h
  | some texts => exact Json.sorted_mergePatchFields h

end Metadata

/-! ### Forms of resources -/

namespace Memory

open Resource

variable {form patch : Json} {r : Resource} {type : TypeMeta} {name : String}

theorem withoutStatus_encode (r : Resource) :
    withoutStatus r.encode = .object (r.encode.fields.erase "status") := rfl

theorem field?_patched (form : Json) (r : Resource) (hname : "status" ≠ name) :
    (form.mergePatch (withoutStatus r.encode)).field? name =
      match r.encode.field? name with
      | none => form.field? name
      | some .null => none
      | some v => some (Json.mergePatch ((form.field? name).getD .null) v) := by
  rw [withoutStatus_encode, Json.field?_mergePatch form r.encode_sorted.erase, Dict.get?_erase,
    if_neg hname]
  rfl

theorem text?_patched (form : Json) (r : Resource) (hname : "status" ≠ name) :
    (form.mergePatch (withoutStatus r.encode)).text? name =
      match r.encode.field? name with
      | none => form.text? name
      | some v => v.string? := by
  rw [withoutStatus_encode, Json.text?_mergePatch form r.encode_sorted.erase, Dict.get?_erase,
    if_neg hname]
  rfl

theorem sorted_patched (hform : form.fields.Sorted) :
    (form.mergePatch (withoutStatus r.encode)).fields.Sorted := Json.sorted_mergePatch hform

/-- Patching with a resource of a type makes the form one of that type. -/
theorem typing_patched (form : Json) (h : r.Proper) (htype : r.typeMeta = some type) :
    (form.mergePatch (withoutStatus r.encode)).typing = type.typing := by
  rw [Json.typing, text?_patched form r (by decide), text?_patched form r (by decide),
    h.field?_apiVersion, h.field?_kind, h.kind (by simp [htype]), htype]
  rfl

theorem metadata_patched (form : Json) (h : r.Proper) :
    (form.mergePatch (withoutStatus r.encode)).metadata =
      form.metadata.mergePatch r.metadata.encode := by
  rw [Json.metadata, field?_patched form r (by decide), field?_encode h, h.metadata]
  rfl

theorem field?_statusOnly (form patch : Json) (hname : "status" ≠ name) :
    (form.mergePatch (statusOnly patch)).field? name = form.field? name := by
  rw [statusOnly, Json.field?_mergePatch form (by simp [Dict.sorted_cons]), Dict.get?_cons,
    if_neg hname]
  rfl

theorem sorted_statusOnly (h : form.fields.Sorted) :
    (form.mergePatch (statusOnly patch)).fields.Sorted := Json.sorted_mergePatch h

theorem field?_versioned (form : Json) (hname : "metadata" ≠ name) :
    (versioned form).field? name = form.field? name :=
  Dict.get?_insert_of_ne _ _ hname

theorem typing_versioned (form : Json) : (versioned form).typing = form.typing := by
  rw [Json.typing, Json.text?, Json.text?, field?_versioned form (by decide),
    field?_versioned form (by decide)]
  rfl

theorem sorted_versioned (h : form.fields.Sorted) : (versioned form).fields.Sorted := h.insert

theorem metadata_versioned (form : Json) (hname : "resourceVersion" ≠ name) :
    (versioned form).metadata.field? name = form.metadata.field? name := by
  simp only [versioned, Json.metadata, Json.field?_object, Dict.get?_insert_self, Option.getD_some]
  exact Dict.get?_insert_of_ne _ _ hname

end Memory

end ResourceComposition
