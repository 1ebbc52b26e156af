import ResourceComposition.Proofs.Order
import ResourceComposition.Resource.Roles

/-!
# JSON forms of resources

A resource and its JSON form say the same. `Metadata.StandsIn` and `Resource.StandsIn` are what that
means: each part of the resource that matters for its identity, its marks and its owners is found
in the form, at its place. A form that is read gives such a resource, and a resource that is written
gives such a form. So what is known of a form is known of the resource, and the other way round,
whatever happens to the form in between.

A point in time may be written otherwise than it was read, so nothing is said here of the parts of
the metadata that hold one.
-/

namespace ResourceComposition

namespace Json

/-- The text in a field, if this is an object that has one there. -/
def text? (value : Json) (name : String) : Option String := (value.field? name).bind string?

/-! ### Objects of the entries that are present -/

/-- The fields of the entries that have a value. -/
def present (entries : List (String × Option Json)) : Dict Json :=
  entries.filterMap fun (name, value?) => value?.map (name, ·)

theorem ofPresent_eq (entries : List (String × Option Json)) :
    ofPresent entries = .object (present entries) := rfl

@[simp] theorem get?_present_nil (k : String) : (present []).get? k = none := rfl

@[simp] theorem get?_present_cons (name k : String) (value? : Option Json)
    (rest : List (String × Option Json)) :
    (present ((name, value?) :: rest)).get? k =
      if name = k then value?.or ((present rest).get? k) else (present rest).get? k := by
  cases value? with
  | none => simp [present]
  | some value => simp [present, Dict.get?_cons]

theorem sorted_present {entries : List (String × Option Json)}
    (h : (entries.map (·.1)).Pairwise (· < ·)) : (present entries).Sorted := by
  refine (List.pairwise_map.mp h).filterMap _ ?_
  rintro ⟨a, v?⟩ ⟨b, w?⟩ hlt entry hentry entry' hentry'
  obtain ⟨v, -, rfl⟩ := Option.map_eq_some_iff.mp hentry
  obtain ⟨w, -, rfl⟩ := Option.map_eq_some_iff.mp hentry'
  exact hlt

end Json

namespace Decode

variable {α β : Type} {entries : Dict Json} {name : String}

/-! ### Reading records -/

theorem meaning_map {f : α → β} {x : Fields α} {b : β} :
    (f <$> x).meaning entries = some b ↔ ∃ a, x.meaning entries = some a ∧ f a = b :=
  Option.map_eq_some_iff

theorem meaning_seq {f : Fields (α → β)} {x : Fields α} {b : β} :
    (f <*> x).meaning entries = some b ↔
      ∃ g, f.meaning entries = some g ∧ ∃ a, x.meaning entries = some a ∧ g a = b := by
  simp [Seq.seq, Fields.seq, Option.bind_eq_some_iff]

theorem meaning_record {style : Json.RecordStyle} {fields : Fields α} {value : Json} {a : α}
    (hstyle : style ≠ .listed) : (record name style fields).meaning value = some a ↔
      ∃ entries, value = .object entries ∧ fields.meaning entries = some a := by
  cases value <;> simp [record, hstyle]

theorem optional_string {o : Option String} (h : (optional name string).meaning entries = some o) :
    o = (entries.get? name).bind Json.string? := by
  simp only [optional] at h
  split at h
  · next hv => simpa [hv] using h.symm
  · next hv => simpa [hv, Json.string?] using h.symm
  · next v _ hv =>
    obtain ⟨s, hs, rfl⟩ := Option.map_eq_some_iff.mp h
    rw [hv]
    exact hs.symm

theorem optional_string_of_present {o : Option String} (h : entries.get? name = o.map .string) :
    (optional name string).meaning entries = some o := by
  cases o <;> simp [optional, h, string, Json.string?]

theorem optional_list {item : Decoder α} {o : Option (List α)}
    (h : (optional name (list item)).meaning entries = some o) :
    o = (entries.get? name).bind (list item).meaning := by
  simp only [optional] at h
  split at h
  · next hv => simpa [hv] using h.symm
  · next hv => simpa [hv, list] using h.symm
  · next v _ hv =>
    obtain ⟨s, hs, rfl⟩ := Option.map_eq_some_iff.mp h
    rw [hv]
    exact hs.symm

/-- A list of values that were written for data is read as the data. -/
theorem list_map {item : Decoder α} {write : α → Json} (h : ∀ a, item.meaning (write a) = some a)
    (as : List α) : (list item).meaning (.array (as.map write)) = some as := by
  induction as with
  | nil => rfl
  | cons a rest ih =>
    simp only [list] at ih ⊢
    simp [h, ih]

theorem mapM_texts {fields : Dict Json} {d : Dict String}
    (h : (fields.mapM fun (n, v) => return (n, ← string.meaning v) : Option _) = some d) :
    d.map (·.1) = fields.map (·.1) ∧ ∀ key, d.get? key = (fields.get? key).bind Json.string? := by
  induction fields generalizing d with
  | nil => simp_all
  | cons entry rest ih =>
    obtain ⟨n, v⟩ := entry
    rw [List.mapM_cons] at h
    obtain ⟨first, hfirst, h⟩ := Option.bind_eq_some_iff.mp h
    obtain ⟨s, hs, hfirst⟩ := Option.bind_eq_some_iff.mp hfirst
    obtain ⟨more, hmore, h⟩ := Option.bind_eq_some_iff.mp h
    obtain rfl := Option.some.inj hfirst
    obtain rfl := Option.some.inj h
    obtain ⟨hkeys, hget⟩ := ih hmore
    refine ⟨by simp [hkeys], fun key => ?_⟩
    rw [Dict.get?_cons, Dict.get?_cons]
    split
    · exact hs.symm
    · exact hget key

theorem optional_texts {o : Option (Dict String)}
    (h : (optional name (dict string)).meaning entries = some o) :
    (o.getD []).map (·.1) = ((entries.get? name).getD .null).fields.map (·.1) ∧
      ∀ key, (o.getD []).get? key =
        (((entries.get? name).getD .null).fields.get? key).bind Json.string? := by
  simp only [optional] at h
  split at h
  · next hv => obtain rfl := Option.some.inj h; simp [hv, Json.fields]
  · next hv => obtain rfl := Option.some.inj h; simp [hv, Json.fields]
  · next v _ hv =>
    obtain ⟨d, hd, rfl⟩ := Option.map_eq_some_iff.mp h
    rw [hv]
    cases v with
    | object fields => exact mapM_texts hd
    | _ => cases hd

end Decode

/-! ### Metadata -/

namespace OwnerReference

theorem meaning_encode (o : OwnerReference) : decode.meaning o.encode = some o := by
  obtain ⟨apiVersion, block, controller, kind, name, uid⟩ := o
  simp only [decode, encode, Json.ofPresent_eq]
  refine (Decode.meaning_record (by decide)).mpr ⟨_, rfl, ?_⟩
  simp only [Decode.meaning_seq, Decode.meaning_map, Decode.optionalOr]
  cases block <;> cases controller <;>
    simp [Decode.optional, Decode.string, Decode.bool, Json.string?, Json.bool?]

end OwnerReference

namespace Metadata

/-- The annotations in the JSON form of metadata. -/
def notes (value : Json) : Dict Json := ((value.field? "annotations").getD .null).fields

/-- The owners in the JSON form of metadata. -/
def owners? (value : Json) : Option (List OwnerReference) :=
  (value.field? "ownerReferences").bind (Decode.list OwnerReference.decode).meaning

/-- A JSON value says the same as metadata, as far as identity, annotations and owners go. -/
structure StandsIn (m : Metadata) (value : Json) : Prop where
  /-- The name. -/
  name : m.name = value.text? "name"
  /-- The beginning of a name that is to be made up. -/
  generateName : m.generateName = value.text? "generateName"
  /-- The namespace. -/
  ns : m.ns = value.text? "namespace"
  /-- The unique identifier. -/
  uid : m.uid = value.text? "uid"
  /-- The names of the annotations, in the order in which they stand. -/
  keys : (m.annotations.getD []).map (·.1) = (notes value).map (·.1)
  /-- The annotations. -/
  note : ∀ key, m.annotation? key = ((notes value).get? key).bind Json.string?
  /-- The owners. -/
  owners : m.ownerReferences = owners? value

theorem standsIn_of_meaning {m : Metadata} {value : Json} (h : decode.meaning value = some m) :
    m.StandsIn value := by
  simp only [decode] at h
  obtain ⟨entries, rfl, hfields⟩ := (Decode.meaning_record (by decide)).mp h
  simp only [Decode.meaning_seq, Decode.meaning_map] at hfields
  obtain ⟨_, ⟨_, ⟨_, ⟨_, ⟨_, ⟨_, ⟨_, ⟨_, ⟨_, ⟨_, ⟨_, ⟨_, ⟨_, ⟨_, ⟨annotations, hannotations, rfl⟩,
    _, -, rfl⟩, _, -, rfl⟩, _, -, rfl⟩, _, -, rfl⟩, generateName, hgenerate, rfl⟩, _, -, rfl⟩,
    _, -, rfl⟩, _, -, rfl⟩, name, hname, rfl⟩, ns, hns, rfl⟩, owners, howners, rfl⟩, _, -, rfl⟩,
    _, -, rfl⟩, uid, huid, rfl⟩ := hfields
  exact {
    name := Decode.optional_string hname
    generateName := Decode.optional_string hgenerate
    ns := Decode.optional_string hns
    uid := Decode.optional_string huid
    keys := (Decode.optional_texts hannotations).1
    note := (Decode.optional_texts hannotations).2
    owners := Decode.optional_list howners }

theorem standsIn_encode (m : Metadata) : m.StandsIn m.encode := by
  have htext (o : Option String) : o = (o.map Json.string).bind Json.string? := by cases o <;> rfl
  constructor
  case keys =>
    simp only [notes, encode, Json.ofPresent_eq, Json.field?_object, Json.get?_present_cons]
    cases m.annotations <;>
      simp [Json.fields, encodeTexts, Dict.mapValues]
  case note =>
    intro key
    simp only [notes, encode, Json.ofPresent_eq, Json.field?_object, Json.get?_present_cons,
      annotation?]
    cases m.annotations with
    | none => simp [Json.fields]
    | some texts => simpa [encodeTexts, Json.fields, Dict.get?_mapValues] using htext _
  case owners =>
    simp only [owners?, encode, Json.ofPresent_eq, Json.field?_object, Json.get?_present_cons]
    cases m.ownerReferences with
    | none => simp
    | some owners => simpa using (Decode.list_map OwnerReference.meaning_encode owners).symm
  all_goals
    simp only [encode, Json.ofPresent_eq, Json.text?, Json.field?_object, Json.get?_present_cons]
    simpa using htext _

end Metadata

/-! ### Resources -/

/-- The metadata in the JSON form of a resource; null if there is none. -/
def Json.metadata (form : Json) : Json := (form.field? "metadata").getD .null

/-- What is told of a type: each part of it, as far as it is a text. -/
structure Typing where
  /-- The group and version. -/
  apiVersion : Option String
  /-- The kind. -/
  kind : Option String

/-- The type that is told, if both parts of it are. -/
def Typing.typeMeta : Typing → Option TypeMeta
  | ⟨some apiVersion, some kind⟩ => some ⟨apiVersion, kind⟩
  | _ => none

/-- What is told of a type that is complete. -/
def TypeMeta.typing (type : TypeMeta) : Typing := ⟨some type.apiVersion, some type.kind⟩

/-- What the JSON form of a resource tells of its type. -/
def Json.typing (form : Json) : Typing := ⟨form.text? "apiVersion", form.text? "kind"⟩

namespace Resource

/-- The fields of a form that do not go to the body. -/
def headerNames : List String := ["apiVersion", "kind", "metadata"]

/-- The body of a resource is in order and leaves type and metadata to their places. A resource
without a type may have kept a kind in its body, though. -/
structure Proper (r : Resource) : Prop where
  /-- The fields of the body are in order. -/
  sorted : r.body.Sorted
  /-- No group and version stands in the body. -/
  apiVersion : r.body.get? "apiVersion" = none
  /-- No metadata stand in the body. -/
  metadata : r.body.get? "metadata" = none
  /-- No kind stands in the body besides a type. -/
  kind : r.typeMeta ≠ none → r.body.get? "kind" = none

theorem Proper.congr {r r' : Resource} (h : r.Proper) (htype : r'.typeMeta = r.typeMeta)
    (hbody : r'.body = r.body) : r'.Proper where
  sorted := hbody ▸ h.sorted
  apiVersion := hbody ▸ h.apiVersion
  metadata := hbody ▸ h.metadata
  kind := by
    rw [htype, hbody]
    exact h.kind

theorem proper_empty {r : Resource} (hbody : r.body = []) : r.Proper where
  sorted := hbody ▸ Dict.sorted_nil
  apiVersion := by rw [hbody]; rfl
  metadata := by rw [hbody]; rfl
  kind _ := by rw [hbody]; rfl

section

variable (apiVersion kind : Option String) (entries : List (String × Json))

theorem takeType_sublist : (takeType apiVersion kind entries).2.Sublist entries := by
  fun_induction takeType apiVersion kind entries with
  | case1 | case2 => exact .slnil
  | case3 _ _ _ ih | case5 _ _ _ _ ih => exact ih.cons _
  | case4 | case6 => exact .cons _ (.refl _)
  | case7 _ _ _ _ _ _ _ _ _ heq ih =>
    rw [heq] at ih
    exact ih.cons_cons _

/-- A field that is gone from the fields is gone from what is left of them. -/
theorem takeType_none {entries : List (String × Json)} {name : String}
    (h : Dict.get? entries name = none) :
    Dict.get? (takeType apiVersion kind entries).2 name = none :=
  Dict.get?_eq_none.mpr fun entry hentry =>
    Dict.get?_eq_none.mp h entry ((takeType_sublist apiVersion kind entries).subset hentry)

/-- Fields of other names are left. -/
theorem get?_takeType {name : String} (ha : name ≠ "apiVersion") (hk : name ≠ "kind") :
    Dict.get? (takeType apiVersion kind entries).2 name = Dict.get? entries name := by
  fun_induction takeType apiVersion kind entries with
  | case1 | case2 => rfl
  | case3 _ _ _ ih => rw [Dict.get?_cons, if_neg (Ne.symm ha), ih]
  | case4 => rw [Dict.get?_cons, if_neg (Ne.symm ha)]
  | case5 _ _ _ _ ih => rw [Dict.get?_cons, if_neg (Ne.symm hk), ih]
  | case6 => rw [Dict.get?_cons, if_neg (Ne.symm hk)]
  | case7 _ _ _ _ _ _ _ _ _ heq ih =>
    rw [heq] at ih
    rw [Dict.get?_cons, Dict.get?_cons, ih]

variable {entries}

/-- No group and version is left. -/
theorem takeType_apiVersion (h : Dict.Sorted entries) :
    Dict.get? (takeType apiVersion kind entries).2 "apiVersion" = none := by
  fun_induction takeType apiVersion kind entries with
  | case1 | case2 => rfl
  | case3 => exact takeType_none _ _ h.get?_rest
  | case4 => exact h.get?_rest
  | case5 _ _ _ _ ih => exact ih (Dict.sorted_cons.mp h).2
  | case6 =>
    -- In order, the group and version cannot come after the kind.
    refine Dict.get?_eq_none.mpr fun entry hentry heq => ?_
    have hlt := (Dict.sorted_cons.mp h).1 entry hentry
    rw [heq] at hlt
    exact absurd hlt (by decide : ¬ "kind" < "apiVersion")
  | case7 _ _ _ _ _ hne _ _ _ heq ih =>
    have := ih (Dict.sorted_cons.mp h).2
    rw [heq] at this
    rwa [Dict.get?_cons, if_neg hne]

/-- Besides a type, no kind is left. -/
theorem takeType_kind (h : Dict.Sorted entries)
    (htype : (takeType apiVersion kind entries).1 ≠ none) :
    Dict.get? (takeType apiVersion kind entries).2 "kind" = none := by
  fun_induction takeType apiVersion kind entries with
  | case1 | case2 => rfl
  | case3 _ _ _ ih => exact ih (Dict.sorted_cons.mp h).2 htype
  | case4 => exact absurd rfl htype
  | case5 => exact takeType_none _ _ h.get?_rest
  | case6 => exact absurd rfl htype
  | case7 _ _ _ _ _ _ hne _ _ heq ih =>
    rw [heq] at ih
    rw [Dict.get?_cons, if_neg hne]
    exact ih (Dict.sorted_cons.mp h).2 htype

/-- The type that is found is the one that is told. -/
theorem takeType_typeMeta (h : Dict.Sorted entries)
    (ha : apiVersion ≠ none → Dict.get? entries "apiVersion" = none)
    (hk : kind ≠ none → Dict.get? entries "kind" = none) :
    (takeType apiVersion kind entries).1 =
      Typing.typeMeta ⟨apiVersion.or ((Dict.get? entries "apiVersion").bind Json.string?),
        kind.or ((Dict.get? entries "kind").bind Json.string?)⟩ := by
  fun_induction takeType apiVersion kind entries with
  | case1 => rfl
  | case2 apiVersion kind hnot =>
    cases apiVersion <;> cases kind <;> simp_all [Typing.typeMeta]
  | case3 kind rest s ih =>
    rw [ih (Dict.sorted_cons.mp h).2 (fun _ => h.get?_rest) fun hkind => by
      simpa [Dict.get?_cons] using hk hkind]
    simp [Dict.get?_cons, Json.string?]
  | case4 apiVersion kind value rest hnot =>
    cases apiVersion with
    | some found => simp [Dict.get?_cons] at ha
    | none => cases value <;> simp_all [Dict.get?_cons, Json.string?, Typing.typeMeta]
  | case5 apiVersion rest s _ ih =>
    rw [ih (Dict.sorted_cons.mp h).2 (fun hfound => by simpa [Dict.get?_cons] using ha hfound)
      fun _ => h.get?_rest]
    simp [Dict.get?_cons, Json.string?]
  | case6 apiVersion kind value rest hnot =>
    cases kind with
    | some found => simp [Dict.get?_cons] at hk
    | none => cases value <;> simp_all [Dict.get?_cons, Json.string?, Typing.typeMeta]
  | case7 apiVersion kind name value rest hna hnk _ _ heq ih =>
    rw [heq] at ih
    simp only [Dict.get?_cons, hna, hnk, if_false] at ha hk ⊢
    exact ih (Dict.sorted_cons.mp h).2 ha hk

end

/-- A JSON value says the same as a resource, as far as metadata and body go. -/
structure StandsIn (r : Resource) (form : Json) : Prop where
  /-- The metadata. -/
  metadata : r.metadata.StandsIn form.metadata
  /-- The body. -/
  body : ∀ name ∉ headerNames, r.body.get? name = form.field? name
  /-- A kind that was left over. -/
  kind : ∀ value, r.body.get? "kind" = some value → form.field? "kind" = some value

theorem ofJson_eq_ok {form : Json} {r : Resource} :
    ofJson form = .ok r ↔ decode.meaning form = some r := by
  unfold ofJson Decoder.decode
  split <;> simp [*]

theorem metadata_of_meaning {form : Json} {m : Metadata}
    (h : decodeMetadata.meaning form = some m) : m.StandsIn form.metadata := by
  obtain ⟨entries, rfl, hfields⟩ := (Decode.meaning_record (by decide)).mp h
  obtain ⟨given?, hgiven, rfl⟩ := Decode.meaning_map.mp hfields
  simp only [Decode.given] at hgiven
  split at hgiven
  · next hnone =>
    obtain rfl := Option.some.inj hgiven
    rw [Json.metadata, Json.field?_object, hnone]
    constructor <;> simp [Metadata.annotation?, Metadata.notes, Metadata.owners?, Json.text?,
      Json.field?, Json.fields]
  · next value hvalue =>
    obtain ⟨m, hm, rfl⟩ := Option.map_eq_some_iff.mp hgiven
    rw [Json.metadata, Json.field?_object, hvalue]
    exact Metadata.standsIn_of_meaning hm

theorem metadata_of_ofJson {form : Json} {r : Resource} (h : ofJson form = .ok r) :
    r.metadata.StandsIn form.metadata := by
  obtain ⟨metadata, hmetadata, h⟩ := Option.bind_eq_some_iff.mp (ofJson_eq_ok.mp h)
  obtain rfl : r.metadata = metadata := by rw [← Option.some.inj h]
  exact metadata_of_meaning hmetadata

/-- What is read from a form. -/
theorem of_ofJson {form : Json} {r : Resource} (h : ofJson form = .ok r)
    (hsorted : form.fields.Sorted) :
    r.typeMeta = form.typing.typeMeta ∧ r.Proper ∧ r.StandsIn form := by
  obtain ⟨metadata, hmetadata, h⟩ := Option.bind_eq_some_iff.mp (ofJson_eq_ok.mp h)
  obtain rfl := Option.some.inj h
  have hrest := hsorted.erase (k := "metadata")
  have hfind (name : String) (hne : "metadata" ≠ name) :
      (form.fields.erase "metadata").get? name = form.field? name := by
    rw [Dict.get?_erase, if_neg hne]
    rfl
  have hbody (name : String) :
      (Dict.ofList (takeType none none (form.fields.erase "metadata")).2).get? name =
        Dict.get? (takeType none none (form.fields.erase "metadata")).2 name :=
    Dict.get?_ofList (hrest.sublist (takeType_sublist none none _))
  refine ⟨?_, ⟨Dict.sorted_ofList, ?_, ?_, fun htype => ?_⟩,
    ⟨metadata_of_meaning hmetadata, fun name hname => ?_, fun value hvalue => ?_⟩⟩
  · rw [takeType_typeMeta none none hrest nofun nofun, hfind _ (by decide), hfind _ (by decide)]
    rfl
  · exact (hbody _).trans (takeType_apiVersion none none hrest)
  · exact (hbody _).trans (takeType_none none none (by rw [Dict.get?_erase, if_pos rfl]))
  · exact (hbody _).trans (takeType_kind none none hrest htype)
  · simp only [headerNames, List.mem_cons, List.not_mem_nil, or_false, not_or] at hname
    obtain ⟨ha, hk, hm⟩ := hname
    rw [hbody, get?_takeType none none _ ha hk, hfind name (Ne.symm hm)]
  · -- What is left over of the fields stood there before.
    rw [hbody] at hvalue
    rw [← hfind "kind" (by decide)]
    exact hrest.get?_sublist (takeType_sublist none none _) hvalue

/-! ### Writing -/

variable {r : Resource} {type : TypeMeta}

/-- The fields of a form that come before the body. -/
theorem field?_encode (h : r.Proper) (name : String) : r.encode.field? name =
    (r.body.get? name).or ((if name = "metadata" then some r.metadata.encode else none).or
      (r.typeMeta.bind fun type =>
        if name = "apiVersion" then some (.string type.apiVersion)
        else if name = "kind" then some (.string type.kind) else none)) := by
  unfold encode
  cases r.typeMeta <;>
    by_cases hm : name = "metadata" <;> by_cases ha : name = "apiVersion" <;>
    by_cases hk : name = "kind" <;>
    simp_all [Dict.get?_insertAll h.sorted, Dict.get?_cons, eq_comm]

theorem Proper.metadata_encode (h : r.Proper) : r.encode.metadata = r.metadata.encode := by
  rw [Json.metadata, field?_encode h, h.metadata]
  simp

theorem Proper.field?_apiVersion (h : r.Proper) : r.encode.field? "apiVersion" =
    r.typeMeta.map fun type => .string type.apiVersion := by
  rw [field?_encode h, h.apiVersion]
  cases r.typeMeta <;> simp

/-- The kind in the form is the one of the type; without a type, it may be one from the body. -/
theorem Proper.field?_kind (h : r.Proper) : r.encode.field? "kind" =
    (r.body.get? "kind").or (r.typeMeta.map fun type => .string type.kind) := by
  rw [field?_encode h]
  cases r.typeMeta <;> simp

theorem encode_sorted (r : Resource) : r.encode.fields.Sorted := by
  unfold encode
  refine Dict.Sorted.insertAll ?_
  cases r.typeMeta with
  | none => exact Dict.sorted_iff_pairwise.mpr (by decide : ["metadata"].Pairwise (· < ·))
  | some type =>
    exact Dict.sorted_iff_pairwise.mpr
      (by decide : ["apiVersion", "kind", "metadata"].Pairwise (· < ·))

theorem Proper.typing_encode (h : r.Proper) (htype : r.typeMeta = some type) :
    r.encode.typing = type.typing := by
  rw [Json.typing, Json.text?, Json.text?, h.field?_apiVersion, h.field?_kind,
    h.kind (by simp [htype]), htype]
  rfl

/-- The form tells the type and no other. -/
theorem Proper.typeMeta_encode (h : r.Proper) : r.encode.typing.typeMeta = r.typeMeta := by
  cases htype : r.typeMeta with
  | some type => rw [h.typing_encode htype]; rfl
  | none => rw [Json.typing, Json.text?, h.field?_apiVersion, htype]; rfl

theorem Proper.standsIn_encode (h : r.Proper) : r.StandsIn r.encode where
  metadata := by
    rw [h.metadata_encode]
    exact r.metadata.standsIn_encode
  body name hname := by
    rw [field?_encode h]
    simp only [headerNames, List.mem_cons, not_or] at hname
    cases r.typeMeta <;> simp [hname]
  kind value hvalue := by
    rw [h.field?_kind, hvalue]
    rfl

end Resource

end ResourceComposition
