import ResourceComposition.Proofs.Filing
import ResourceComposition.Proofs.Repatching

/-!
# A store stays well kept

A store in memory in which all forms lie where they belong stays so, whatever is asked of it, as long
as the objects that it is asked to write are upright: they leave their header to its place, their
metadata can be read again, and their form is in order. `Memory.Suits` says what that means for each
call, `Memory.Filed.reply` is the step, and `Memory.reaches_filing` carries it over a whole run.

A patch is the hard case, since it is merged into a form that may hold anything. What carries it is
that merging forms of metadata is merging metadata, part by part (`Metadata.mergedWith`).
-/

namespace ResourceComposition

/-! ### Merged values in order -/

namespace Json

theorem Ordered.orderedFields {value : Json} (h : value.Ordered) : OrderedFields value.fields := by
  cases value with
  | object fields => exact h.2
  | _ => trivial

theorem OrderedFields.getD {fields : Dict Json} (h : OrderedFields fields) (name : String) :
    ((fields.get? name).getD .null).Ordered := by
  cases hget : fields.get? name with
  | none => trivial
  | some v => exact h.get? hget

/-- A value in order, in a field of its own. -/
theorem ordered_field {name : String} {v : Json} (h : v.Ordered) :
    (Json.object [(name, v)]).Ordered := ⟨by simp [Dict.sorted_cons], h, trivial⟩

theorem OrderedFields.erase {fields : Dict Json} (h : OrderedFields fields) (name : String) :
    OrderedFields (fields.erase name) :=
  orderedFields_iff.mpr fun entry hentry =>
    orderedFields_iff.mp h entry (List.mem_filter.mp hentry).1

theorem mergePatch_of_not_object {patch : Json} (h : patch.isObject = false) (target : Json) :
    target.mergePatch patch = patch := by
  cases patch with
  | object fields => cases h
  | _ => simp [mergePatch]

theorem mergePatchFields_cons {target : Dict Json} {name : String} {value : Json}
    (h : value ≠ .null) (rest : List (String × Json)) :
    mergePatchFields target ((name, value) :: rest) =
      mergePatchFields (target.insert name (((target.get? name).getD .null).mergePatch value))
        rest := by
  cases value with
  | null => exact absurd rfl h
  | _ => rw [mergePatchFields]; simp

mutual

/-- Patching a value with another keeps them in order. -/
theorem Ordered.mergePatch {target : Json} (h : target.Ordered) :
    {patch : Json} → patch.Ordered → (target.mergePatch patch).Ordered
  | .object patch, hpatch => by
    rw [Json.mergePatch]
    exact OrderedFields.mergePatch h.sorted h.orderedFields hpatch.2
  | .null, hpatch | .bool _, hpatch | .int _, hpatch | .float _, hpatch | .string _, hpatch
  | .array _, hpatch => by rwa [mergePatch_of_not_object rfl]

/-- Patching fields keeps them in order. -/
theorem OrderedFields.mergePatch {target : Dict Json} (hsorted : target.Sorted)
    (h : OrderedFields target) :
    {patch : List (String × Json)} → OrderedFields patch →
      (Json.object (mergePatchFields target patch)).Ordered
  | [], _ => by
    rw [mergePatchFields]
    exact ⟨hsorted, h⟩
  | (name, value) :: rest, hpatch => by
    by_cases hnull : value = .null
    · subst hnull
      rw [mergePatchFields]
      exact OrderedFields.mergePatch hsorted.erase (h.erase name) hpatch.2
    · rw [mergePatchFields_cons hnull]
      have htarget : (Json.object target).Ordered := ⟨hsorted, h⟩
      have hold : ((Dict.get? target name).getD .null).Ordered := htarget.getD_field? name
      exact OrderedFields.mergePatch hsorted.insert (h.insert (Ordered.mergePatch hold hpatch.1))
        hpatch.2

end

end Json

/-! ### Merged metadata -/

namespace Decode

variable {α : Type} {d : Decoder α} {entries entries' : Dict Json} {name : String}

/-- What a field is read as hangs on that field alone. -/
theorem optional_congr (h : entries'.get? name = entries.get? name) :
    (optional name d).meaning entries' = (optional name d).meaning entries := by
  simp only [optional, h]

/-- What is read from a field is what the field means. -/
theorem exists_of_optional {o : Option α} (h : (optional name d).meaning entries = some o) :
    ∀ a ∈ o, ∃ v, entries.get? name = some v ∧ d.meaning v = some a := by
  rintro a rfl
  simp only [optional] at h
  split at h
  · cases h
  · cases h
  · next v _ hv =>
    obtain ⟨read, hread, hsome⟩ := Option.map_eq_some_iff.mp h
    obtain rfl := Option.some.inj hsome
    exact ⟨v, hv, hread⟩

/-- The fields of texts that were read. -/
theorem fields_of_optional_texts {o : Option (Dict String)}
    (h : (optional name (dict string)).meaning entries = some o) :
    ((entries.get? name).getD .null).fields = (o.getD []).mapValues .string := by
  simp only [optional] at h
  split at h
  · next hv => obtain rfl := Option.some.inj h; rw [hv]; rfl
  · next hv => obtain rfl := Option.some.inj h; rw [hv]; rfl
  · next v _ hv =>
    obtain ⟨texts, htexts, rfl⟩ := Option.map_eq_some_iff.mp h
    rw [hv, Option.getD_some, meaning_texts.mp htexts]
    rfl

end Decode

namespace Metadata

open Decode

/-- Metadata with other metadata merged into them: a part that the others have takes the place of what
was there, but texts by name are added to those that were there. -/
def mergedWith (m other : Metadata) : Metadata where
  annotations := (other.annotations.map (m.annotations.getD []).insertAll).or m.annotations
  creationTimestamp := other.creationTimestamp.or m.creationTimestamp
  deletionGracePeriodSeconds := other.deletionGracePeriodSeconds.or m.deletionGracePeriodSeconds
  deletionTimestamp := other.deletionTimestamp.or m.deletionTimestamp
  finalizers := other.finalizers.or m.finalizers
  generateName := other.generateName.or m.generateName
  generation := other.generation.or m.generation
  labels := (other.labels.map (m.labels.getD []).insertAll).or m.labels
  managedFields := other.managedFields.or m.managedFields
  name := other.name.or m.name
  ns := other.ns.or m.ns
  ownerReferences := other.ownerReferences.or m.ownerReferences
  resourceVersion := other.resourceVersion.or m.resourceVersion
  selfLink := other.selfLink.or m.selfLink
  uid := other.uid.or m.uid

variable {m other : Metadata} {value : Json} {field : String}

theorem mergePatchFields_texts (texts top : Dict String) :
    Json.mergePatchFields (texts.mapValues .string) (top.mapValues .string) =
      (texts.insertAll top).mapValues .string := by
  induction top generalizing texts with
  | nil => simp [Dict.mapValues, Json.mergePatchFields, Dict.insertAll]
  | cons entry rest ih =>
    have hcons : Dict.mapValues Json.string (entry :: rest) =
        (entry.1, .string entry.2) :: Dict.mapValues Json.string rest := rfl
    have hne : Json.string entry.2 ≠ .null := by simp
    rw [hcons, Json.mergePatchFields_cons hne, Json.mergePatch_of_not_object rfl,
      ← Dict.mapValues_insert]
    exact ih _

/-- A part that is no object takes the place of what was there. -/
theorem optional_merged {α : Type} {d : Decoder α} {write : α → Json} {first o : Option α}
    (hplain : ∀ a, (write a).isObject = false) (ho : ∀ a ∈ o, Readable d write a)
    (hwritten : other.encode.field? field = o.map write)
    (h : (optional field d).meaning value.fields = some first) :
    (optional field d).meaning (value.mergePatch other.encode).fields = some (o.or first) := by
  have hfield := other.field?_merged value field
  rw [hwritten] at hfield
  cases o with
  | none => exact (optional_congr hfield).trans h
  | some a =>
    have hnew : (value.mergePatch other.encode).fields.get? field = (some a).map write := by
      refine hfield.trans ?_
      simp [(ho a rfl).2, Json.mergePatch_of_not_object (hplain a)]
    exact optional_of_readable hnew ho

/-- Texts are added to those that were there. -/
theorem optional_texts_merged {first o : Option (Dict String)}
    (hwritten : other.encode.field? field = o.map encodeTexts)
    (h : (optional field (dict string)).meaning value.fields = some first) :
    (optional field (dict string)).meaning (value.mergePatch other.encode).fields =
      some ((o.map (first.getD []).insertAll).or first) := by
  have hfield := other.field?_merged value field
  rw [hwritten] at hfield
  cases o with
  | none => exact (optional_congr hfield).trans h
  | some texts =>
    have hbelow : ((value.field? field).getD .null).fields = _ := fields_of_optional_texts h
    refine optional_of_readable (o := some _) (hfield.trans ?_) fun texts _ => readable_texts texts
    simp [encodeTexts, Json.mergePatch, hbelow, mergePatchFields_texts]

/-- Merging forms of metadata is merging metadata. -/
theorem ReadFrom.merged (h : m.ReadFrom value.fields) (hother : other.Legible) :
    (m.mergedWith other).ReadFrom (value.mergePatch other.encode).fields := by
  have htext (s : String) := readable_string s
  constructor
  case annotations =>
    exact optional_texts_merged (by simp [encode, Json.ofPresent_eq]) h.annotations
  case labels => exact optional_texts_merged (by simp [encode, Json.ofPresent_eq]) h.labels
  case creationTimestamp =>
    exact optional_merged (fun _ => rfl) hother.creationTimestamp
      (by simp [encode, Json.ofPresent_eq]) h.creationTimestamp
  case deletionGracePeriodSeconds =>
    exact optional_merged (fun _ => rfl) hother.deletionGracePeriodSeconds
      (by simp [encode, Json.ofPresent_eq]) h.deletionGracePeriodSeconds
  case deletionTimestamp =>
    exact optional_merged (fun _ => rfl) hother.deletionTimestamp
      (by simp [encode, Json.ofPresent_eq]) h.deletionTimestamp
  case finalizers =>
    exact optional_merged (fun _ => rfl) (fun names _ => readable_list fun s _ => htext s)
      (by simp [encode, Json.ofPresent_eq]) h.finalizers
  case generateName =>
    exact optional_merged (fun _ => rfl) (fun s _ => htext s) (by simp [encode, Json.ofPresent_eq])
      h.generateName
  case generation =>
    exact optional_merged (fun _ => rfl) hother.generation (by simp [encode, Json.ofPresent_eq])
      h.generation
  case managedFields =>
    exact optional_merged (fun _ => rfl) hother.managedFields (by simp [encode, Json.ofPresent_eq])
      h.managedFields
  case name =>
    exact optional_merged (fun _ => rfl) (fun s _ => htext s) (by simp [encode, Json.ofPresent_eq])
      h.name
  case ns =>
    exact optional_merged (fun _ => rfl) (fun s _ => htext s) (by simp [encode, Json.ofPresent_eq])
      h.ns
  case ownerReferences =>
    exact optional_merged (fun _ => rfl)
      (fun owners _ => readable_list fun o _ => readable_owner o) (by simp [encode, Json.ofPresent_eq])
      h.ownerReferences
  case resourceVersion =>
    exact optional_merged (fun _ => rfl) (fun s _ => htext s) (by simp [encode, Json.ofPresent_eq])
      h.resourceVersion
  case selfLink =>
    exact optional_merged (fun _ => rfl) (fun s _ => htext s) (by simp [encode, Json.ofPresent_eq])
      h.selfLink
  case uid =>
    exact optional_merged (fun _ => rfl) (fun s _ => htext s) (by simp [encode, Json.ofPresent_eq])
      h.uid

/-- The version is a part of its own. -/
theorem ReadFrom.versioned {entries entries' : Dict Json} {version : Option String}
    (h : m.ReadFrom entries)
    (hsame : ∀ name ≠ "resourceVersion", entries'.get? name = entries.get? name)
    (hversion : (optional "resourceVersion" string).meaning entries' = some version) :
    ({ m with resourceVersion := version } : Metadata).ReadFrom entries' := by
  constructor
  case resourceVersion => exact hversion
  all_goals rw [optional_congr (hsame _ (by decide))]
  case annotations => exact h.annotations
  case creationTimestamp => exact h.creationTimestamp
  case deletionGracePeriodSeconds => exact h.deletionGracePeriodSeconds
  case deletionTimestamp => exact h.deletionTimestamp
  case finalizers => exact h.finalizers
  case generateName => exact h.generateName
  case generation => exact h.generation
  case labels => exact h.labels
  case managedFields => exact h.managedFields
  case name => exact h.name
  case ns => exact h.ns
  case ownerReferences => exact h.ownerReferences
  case selfLink => exact h.selfLink
  case uid => exact h.uid

end Metadata

/-! ### Forms in order -/

namespace Json

theorem orderedFields_present {entries : List (String × Option Json)} :
    OrderedFields (present entries) ↔ ∀ entry ∈ entries, ∀ v ∈ entry.2, v.Ordered := by
  induction entries with
  | nil => simp [present, OrderedFields]
  | cons entry rest ih =>
    obtain ⟨name, value?⟩ := entry
    rw [List.forall_mem_cons, ← ih]
    cases value? <;> simp [present, OrderedFields]

theorem OrderedFields.insertAll {target source : Dict Json} (h : OrderedFields target)
    (hsource : OrderedFields source) : OrderedFields (target.insertAll source) := by
  induction source generalizing target with
  | nil => exact h
  | cons entry rest ih => exact ih (h.insert hsource.1) hsource.2

end Json

theorem OwnerReference.ordered_encode (o : OwnerReference) : o.encode.Ordered := by
  refine ⟨Json.sorted_present (by simp only [List.map]; decide), Json.orderedFields_present.mpr ?_⟩
  cases o.blockOwnerDeletion <;> cases o.controller <;> simp [Json.Ordered]

theorem ManagedFields.ordered_encode_iff (m : ManagedFields) :
    m.encode.Ordered ↔ ∀ list ∈ m.fieldsV1, list.Ordered := by
  rw [encode, Json.ofPresent_eq, Json.Ordered, Json.orderedFields_present,
    and_iff_right (Json.sorted_present (by simp only [List.map]; decide))]
  simp [Json.Ordered]

/-- The form of metadata is in order if those parts are that may hold objects. -/
theorem Metadata.ordered_encode_iff (m : Metadata) : m.encode.Ordered ↔
    (∀ texts ∈ m.annotations, texts.Sorted) ∧ (∀ texts ∈ m.labels, texts.Sorted) ∧
      ∀ entries ∈ m.managedFields, ∀ entry ∈ entries, entry.encode.Ordered := by
  have htexts (texts : Dict String) : (encodeTexts texts).Ordered ↔ texts.Sorted := by
    refine ⟨sorted_of_ordered, fun h => ⟨h.mapValues _, Json.orderedFields_iff.mpr ?_⟩⟩
    rintro entry hentry
    obtain ⟨text, -, rfl⟩ := List.mem_map.mp hentry
    trivial
  rw [encode, Json.ofPresent_eq, Json.Ordered, Json.orderedFields_present,
    and_iff_right (Json.sorted_present (by simp only [List.map]; decide))]
  simp [Json.Ordered, Json.orderedItems_iff, htexts,
    OwnerReference.ordered_encode]

/-- Managed fields that are read from a value in order are written in order. -/
theorem ManagedFields.ordered_of_meaning {m : ManagedFields} {value : Json} (hvalue : value.Ordered)
    (h : decode.meaning value = some m) : m.encode.Ordered := by
  obtain ⟨entries, rfl, hread⟩ := meaning_eq_some.mp h
  refine m.ordered_encode_iff.mpr fun list hlist => ?_
  obtain ⟨v, hv, hmeaning⟩ := Decode.exists_of_optional hread.fieldsV1 list hlist
  obtain rfl := Option.some.inj hmeaning
  exact hvalue.2.get? hv

/-- Metadata that are read from fields in order are written in order. -/
theorem Metadata.ReadFrom.ordered {m : Metadata} {entries : Dict Json} (h : m.ReadFrom entries)
    (hentries : Json.OrderedFields entries) : m.encode.Ordered := by
  have htexts {name : String} {o : Option (Dict String)}
      (h : (Decode.optional name (Decode.dict Decode.string)).meaning entries = some o) :
      ∀ texts ∈ o, texts.Sorted := by
    rintro texts rfl
    exact sorted_of_optional_texts (fun v hv => hentries.get? hv) h
  refine m.ordered_encode_iff.mpr ⟨htexts h.annotations, htexts h.labels, ?_⟩
  intro list hlist entry hentry
  obtain ⟨v, hv, hmeaning⟩ := Decode.exists_of_optional h.managedFields list hlist
  have hordered : v.Ordered := hentries.get? hv
  cases v with
  | array items =>
    obtain ⟨item, hitem, hread⟩ := Decode.exists_of_meaning_list hmeaning entry hentry
    exact ManagedFields.ordered_of_meaning (Json.orderedItems_iff.mp hordered item hitem) hread
  | _ => cases hmeaning

/-! ### Upright resources -/

namespace Resource

/-- A resource is written so that it can be read again: its header is in its place, its metadata can
be read, and its form is in order. -/
structure Upright (r : Resource) : Prop where
  /-- The body leaves the header to its place. -/
  proper : r.Proper
  /-- The metadata can be read again. -/
  legible : r.metadata.Legible
  /-- The form of the metadata is in order. -/
  metadata : r.metadata.encode.Ordered
  /-- The values of the body are in order. -/
  body : Json.OrderedFields r.body

variable {r : Resource} {form : Json}

theorem Upright.ordered (h : r.Upright) : r.encode.Ordered := by
  refine ⟨r.encode_sorted, Json.OrderedFields.insertAll ?_ h.body⟩
  cases r.typeMeta <;> simp [Json.OrderedFields, Json.Ordered, h.metadata]

/-- The metadata of a resource are read from the fields of the metadata of its form. -/
theorem readFrom_of_ofJson (h : ofJson form = .ok r) :
    r.metadata.ReadFrom form.metadata.fields := by
  obtain ⟨hnone, hempty⟩ | ⟨value, hvalue, hread⟩ := metadata_cases_of_ofJson h
  · rw [hempty, Json.metadata, hnone]
    constructor <;> rfl
  · obtain ⟨entries, rfl, hentries⟩ := Metadata.meaning_eq_some.mp hread
    rw [Json.metadata, hvalue]
    exact hentries

/-- What is read from a form in order is upright. -/
theorem upright_of_ofJson (hform : form.Ordered) (h : ofJson form = .ok r) : r.Upright := by
  obtain ⟨-, hproper, hstands⟩ := of_ofJson h hform.sorted
  have hread := readFrom_of_ofJson h
  refine ⟨hproper, hread.legible,
    hread.ordered (hform.getD_field? "metadata").orderedFields, ?_⟩
  refine Json.orderedFields_iff.mpr fun ⟨name, value⟩ hentry => ?_
  have hget := hproper.sorted.get?_of_mem hentry
  by_cases hname : name ∈ headerNames
  · -- Of the header, only a kind may be left over.
    simp only [headerNames, List.mem_cons, List.not_mem_nil, or_false] at hname
    obtain rfl | rfl | rfl := hname
    · rw [hproper.apiVersion] at hget
      cases hget
    · exact hform.field? (hstands.kind value hget)
    · rw [hproper.metadata] at hget
      cases hget
  · exact hform.field? ((hstands.body name hname).symm.trans hget)

theorem Proper.readFrom_encode (h : r.Proper) (hlegible : r.metadata.Legible) :
    r.metadata.ReadFrom r.encode.metadata.fields := by
  obtain ⟨entries, hentries, hread⟩ :=
    Metadata.meaning_eq_some.mp (Metadata.meaning_encode hlegible)
  rwa [h.metadata_encode, hentries]

end Resource

/-! ### Forms under their keys -/

namespace Json

/-- The identity of a form. -/
def identity (form : Json) : Identity :=
  ⟨form.typing, form.metadata.text? "name", form.metadata.text? "namespace"⟩

variable {form : Json} {r : Resource}

theorem on_identity (h : form.fields.Sorted) : form.identity.On form := ⟨h, rfl, rfl, rfl⟩

theorem key_of_ofJson (h : form.fields.Sorted) (hread : Resource.ofJson form = .ok r) :
    r.key = form.identity.key := ((on_identity h).read hread).1.key

end Json

namespace Memory

open Resource

variable {m : Memory} {form patch : Json} {key : ObjectKey} {object : Resource} {metadata : Metadata}

theorem filedAt_iff : FiledAt key form ↔ form.Ordered ∧ ∃ r, ofJson form = .ok r ∧ r.key = key := by
  refine and_congr_right fun _ => (Option.any_eq_true ..).trans ?_
  simp [Except.toOption_eq_some]

theorem ordered_versioned (h : form.Ordered) : (versioned form).Ordered := by
  have hmetadata : ((form.field? "metadata").getD .null).Ordered := h.getD_field? "metadata"
  exact ⟨h.sorted.insert, h.orderedFields.insert
    ⟨hmetadata.sorted.insert, hmetadata.orderedFields.insert trivial⟩⟩

/-- A form whose metadata can be read lies, with its version counted up, under the key that it
gives. -/
theorem filedAt_versioned (hordered : form.Ordered) (hkey : form.identity.key = key)
    (hread : metadata.ReadFrom form.metadata.fields) : FiledAt key (versioned form) := by
  have hobject : (versioned form).isObject = true := rfl
  have hfield : (versioned form).field? "metadata" = some (.object
      (form.metadata.fields.insert "resourceVersion" (.string (nextVersion form)))) :=
    Dict.get?_insert_self ..
  have hversion := Decode.optional_string_of_present (o := some (nextVersion form))
    (Dict.get?_insert_self "resourceVersion" (.string (nextVersion form)) form.metadata.fields)
  have hversioned := hread.versioned (fun name hne => Dict.get?_insert_of_ne _ _ hne.symm) hversion
  obtain ⟨r, hr, -⟩ := exists_ofJson hobject hfield
    (Metadata.meaning_eq_some.mpr ⟨_, rfl, hversioned⟩)
  have hidentity := ((Json.on_identity hordered.sorted).versioned.read hr).1.key
  exact filedAt_iff.mpr ⟨ordered_versioned hordered, r, hr, hidentity.trans hkey⟩

/-- A form has the key of a resource if it tells the same of type, name and namespace. -/
theorem identity_key (htype : form.typing.typeMeta = object.typeMeta)
    (hname : (form.metadata.text? "name").getD "" = object.metadata.name.getD "")
    (hns : (form.metadata.text? "namespace").getD "" = object.metadata.ns.getD "") :
    form.identity.key = object.key := by
  simp [Identity.key, Json.identity, htype, hname, hns, Resource.key, Reference.key,
    Resource.reference, Identity.getD_nonEmpty, Resource.apiVersion, Resource.kind]

theorem identity_key_encode (h : object.Proper) : object.encode.identity.key = object.key :=
  identity_key h.typeMeta_encode (congrArg (·.getD "") h.standsIn_encode.metadata.name.symm)
    (congrArg (·.getD "") h.standsIn_encode.metadata.ns.symm)

/-- An upright resource is read again under its own key. -/
theorem filedAt_encode (h : object.Upright) : FiledAt object.key object.encode := by
  have hobject : object.encode.isObject = true := rfl
  obtain ⟨r, hr, -⟩ := exists_ofJson hobject h.proper.field?_metadata
    (Metadata.meaning_encode h.legible)
  exact filedAt_iff.mpr ⟨h.ordered, r, hr,
    (Json.key_of_ofJson object.encode_sorted hr).trans (identity_key_encode h.proper)⟩

/-! ### Writing -/

/-- Giving an object a status leaves its header alone. -/
theorem sameHeader_replaceForm (object : Resource) (form : Json) :
    Identity.SameHeader object.encode (replaceForm object form) := by
  rw [replaceForm]
  cases form.field? "status" with
  | none => exact ⟨object.encode_sorted, fun _ _ => rfl⟩
  | some status =>
    refine ⟨object.encode_sorted.insert, fun name hname => Dict.get?_insert_of_ne _ _ ?_⟩
    rintro rfl
    simp [headerNames] at hname

theorem ordered_replaceForm (h : object.Upright) (hform : form.Ordered) :
    (replaceForm object form).Ordered := by
  rw [replaceForm]
  cases hstatus : form.field? "status" with
  | none => exact h.ordered
  | some status => exact ⟨h.ordered.1.insert, h.ordered.2.insert (hform.field? hstatus)⟩

/-- Forms with the same header have the same identity. -/
theorem identity_eq {form form' : Json} (h : Identity.SameHeader form form') :
    form'.identity = form.identity := by
  rw [Json.identity, h.typing, h.metadata, Json.identity]

/-- An upright resource takes the place of a form, whatever the status of the form was. -/
theorem filedAt_replaceForm (h : object.Upright) (hform : form.Ordered) :
    FiledAt object.key (versioned (replaceForm object form)) := by
  have hsame := sameHeader_replaceForm object form
  refine filedAt_versioned (ordered_replaceForm h hform) ?_
    (hsame.metadata ▸ h.proper.readFrom_encode h.legible)
  rw [identity_eq hsame, identity_key_encode h.proper]

/-- Patching a form with a resource without a type and without a kind leaves the type alone. -/
theorem typing_patched_of_none (form : Json) (h : object.Proper) (htype : object.typeMeta = none)
    (hkind : object.body.get? "kind" = none) :
    (form.mergePatch (withoutStatus object.encode)).typing = form.typing := by
  rw [Json.typing, text?_patched form object (by decide), text?_patched form object (by decide),
    h.field?_apiVersion, h.field?_kind, hkind, htype]
  rfl

/-- Patching a form with a resource of the same key leaves the form under that key. -/
theorem identity_key_patched (h : object.Proper) (hkind : object.body.get? "kind" = none)
    (hkey : form.identity.key = object.key) :
    (form.mergePatch (withoutStatus object.encode)).identity.key = object.key := by
  obtain ⟨hapiVersion', hkind', hns, hname⟩ := ObjectKey.mk.inj hkey
  -- A part that the resource leaves out is empty in the key, and so it is in the form.
  have hor {o p : Option String} (hp : p.getD "" = o.getD "") : (o.or p).getD "" = o.getD "" := by
    cases o with
    | none => exact hp
    | some s => rfl
  have hname' := object.metadata.name_merged form.metadata
  have hns' := object.metadata.ns_merged form.metadata
  rw [← metadata_patched form h] at hname' hns'
  cases htype : object.typeMeta with
  | some type =>
    refine identity_key ?_ ((congrArg (·.getD "") hname').trans (hor hname))
      ((congrArg (·.getD "") hns').trans (hor hns))
    rw [typing_patched form h htype, htype]
    rfl
  | none =>
    have htyping := typing_patched_of_none form h htype hkind
    refine (ObjectKey.mk.injEq ..).mpr ⟨?_, ?_, (congrArg (·.getD "") hns').trans (hor hns),
      (congrArg (·.getD "") hname').trans (hor hname)⟩
    · rw [← hapiVersion', Json.identity, htyping]
      rfl
    · rw [← hkind', Json.identity, htyping]
      rfl

/-- Patching a form with an upright resource of the same key leaves the form under that key. -/
theorem filedAt_patched (h : object.Upright) (hkind : object.body.get? "kind" = none)
    (hform : FiledAt object.key form) :
    FiledAt object.key (versioned (form.mergePatch (withoutStatus object.encode))) := by
  obtain ⟨hordered, r, hread, hkey⟩ := filedAt_iff.mp hform
  have hpatch : (withoutStatus object.encode).Ordered :=
    ⟨h.ordered.1.erase, Json.OrderedFields.erase h.ordered.2 "status"⟩
  have hmerged := (readFrom_of_ofJson hread).merged h.legible
  rw [← metadata_patched form h.proper] at hmerged
  exact filedAt_versioned (hordered.mergePatch hpatch) (identity_key_patched h.proper hkind
    ((Json.key_of_ofJson hordered.sorted hread).symm.trans hkey)) hmerged

/-- Patching the status of a form leaves the form where it lies. -/
theorem filedAt_statusOnly (hpatch : patch.Ordered) (hform : FiledAt key form) :
    FiledAt key (versioned (form.mergePatch (statusOnly patch))) := by
  obtain ⟨hordered, r, hread, hkey⟩ := filedAt_iff.mp hform
  have hsame := Identity.sameHeader_statusOnly hordered.sorted patch
  have hstatus : (statusOnly patch).Ordered := Json.ordered_field (hpatch.getD_field? "status")
  refine filedAt_versioned (hordered.mergePatch hstatus) ?_
    (hsame.metadata ▸ readFrom_of_ofJson hread)
  rw [identity_eq hsame, ← hkey, Json.key_of_ofJson hordered.sorted hread]

/-! ### What is asked of the store -/

theorem Filed.put (hm : m.Filed) (hform : FiledAt key form) : (m.put key form).Filed := by
  intro entry hentry
  obtain rfl | hentry := List.mem_cons.mp hentry
  · exact hform
  · exact hm entry (List.mem_filter.mp hentry).1

theorem Filed.remove (hm : m.Filed) (key : ObjectKey) : (m.remove key).Filed :=
  fun entry hentry => hm entry (List.mem_filter.mp hentry).1

theorem Filed.of_objects {after : Memory} (hm : m.Filed) (h : after.objects = m.objects) :
    after.Filed := by
  rw [Filed, h]
  exact hm

/-- Changing a stored form keeps the store, if what becomes of the form lies under its key. -/
theorem Filed.write (hm : m.Filed) {change : Json → Json}
    (h : ∀ form, FiledAt object.key form → FiledAt object.key (versioned (change form))) :
    (m.write object change).2.Filed := by
  unfold Memory.write
  cases hlookup : m.lookup? object.key with
  | none => exact hm
  | some form => exact hm.put (h form (filedAt_iff.mpr (hm.lookup? hlookup)))

/-- Only the metadata tell of an upright resource that it is one, and only some of them. -/
theorem upright_of_metadata {created : Resource} (h : object.Upright)
    (hmetadata : created.metadata = { object.metadata with
      name := created.metadata.name, uid := created.metadata.uid
      resourceVersion := created.metadata.resourceVersion
      ownerReferences := created.metadata.ownerReferences })
    (htype : created.typeMeta = object.typeMeta) (hbody : created.body = object.body) :
    created.Upright where
  proper := h.proper.congr htype hbody
  legible := by
    rw [hmetadata]
    exact ⟨h.legible.creationTimestamp, h.legible.deletionGracePeriodSeconds,
      h.legible.deletionTimestamp, h.legible.generation, h.legible.managedFields⟩
  metadata := by
    rw [hmetadata, Metadata.ordered_encode_iff]
    exact object.metadata.ordered_encode_iff.mp h.metadata
  body := hbody ▸ h.body

theorem Filed.create (hm : m.Filed) (h : object.Upright) (dryRun : Bool) :
    (m.create object dryRun).2.Filed := by
  have hafter := hm.of_objects (objects_named object m)
  unfold Memory.create
  cases hnamed : m.named object with
  | mk result after =>
    rw [hnamed] at hafter
    cases result with
    | error e => exact hafter
    | ok created =>
      dsimp only
      split
      · exact hafter
      · split
        · exact hafter
        · obtain ⟨name, rfl⟩ := eq_of_named (congrArg Prod.fst hnamed)
          exact hafter.put (filedAt_encode (upright_of_metadata h rfl rfl rfl))

/-- A call that leaves a well kept store well kept: what is written is upright, an object is patched
with its own form, and the status of a patch is in order. -/
def Suits : Call → Prop
  | .get _ | .delete _ | .publish _ _ _ => True
  | .create object _ | .update object => object.Upright
  | .patch object patch =>
    object.Upright ∧ object.body.get? "kind" = none ∧ patch = object.encode
  | .patchStatus _ patch => patch.Ordered

/-- A store in which all forms lie where they belong stays so, whatever it replies. -/
theorem Filed.reply (hm : m.Filed) {request : Call} (h : Suits request) :
    (handler.reply request m).2.Filed := by
  cases request with
  | get reference => exact hm
  | publish about event action => exact hm
  | delete object => exact hm.remove object.key
  | create object dryRun => exact hm.create h dryRun
  | update object =>
    exact hm.write fun form hform => filedAt_replaceForm h (filedAt_iff.mp hform).1
  | patch object patch =>
    obtain ⟨hobject, hkind, rfl⟩ := h
    exact hm.write fun form hform => filedAt_patched hobject hkind hform
  | patchStatus object patch => exact hm.write fun form hform => filedAt_statusOnly h hform

theorem createsInOrder_of_suits {request : Call} (h : Suits request) : CreatesInOrder request := by
  cases request with
  | create object dryRun => exact h.proper.sorted
  | _ => trivial

/-- To a call that suits it, a store in memory replies as a store does that is kept well. -/
theorem filing_of_obeys {after : Memory} {request : Call} {reply : request.Reply} (h : Suits request)
    (hreply : Obeys request m reply after) : Filing request m reply after := by
  cases hreply with
  | refused cause => exact .refused cause
  | told name => exact .told name
  | served => exact .served (createsInOrder_of_suits h) fun hm => hm.reply h

theorem Obeys.filed {after : Memory} {request : Call} {reply : request.Reply}
    (hreply : Obeys request m reply after) (hm : m.Filed) (h : Suits request) : after.Filed :=
  (filing_of_obeys h hreply).filed hm

/-- A run against a store in memory is one against a store that is kept well, if all calls of it suit
the store. -/
theorem reaches_filing {α : Type} {p q : Program α} {log : List Exchange} {last : Memory}
    (h : Program.Reaches Obeys p m log q last)
    (hsuits : ∀ exchange ∈ log, Suits exchange.request) :
    Program.Reaches Filing p m log q last := by
  induction h with
  | here => exact .here
  | call hreply _ ih =>
    obtain ⟨hfirst, hrest⟩ := List.forall_mem_cons.mp hsuits
    exact .call (filing_of_obeys hfirst hreply) (ih hrest)

end Memory

end ResourceComposition
