import ResourceComposition.Connection.Extraction
import ResourceComposition.Proofs.Order

/-!
# What is extracted

What a connection detail is stored under and where its value comes from is said here for a detail by
itself (`ConnectionDetail.Stores`), and so is which bytes a source gives (`DetailSource.Gives`). Details
are gone through in order, and each finds out both at once (`ConnectionDetail.extract_eq_ok`): a detail of
which nothing says where its value comes from, or that lacks a part, ends in an error, and so does one
whose field cannot be read. A key or a field that is not there is passed over.

Under a name stands what the last detail gave that is stored under the name and had anything to give
(`ConnectionDetail.LastYields`). So what was fetched counts only where a detail asks for it, and all of
this together says what is extracted (`Resource.extractDetails_exact`).
-/

namespace ResourceComposition

/-- The bytes that a source gives, if there are any. -/
inductive DetailSource.Gives (form : Json) (fetched : ConnectionDetails) :
    DetailSource → Option Bytes → Prop where
  /-- What was fetched under the key. -/
  | secretKey (key : String) : Gives form fetched (.secretKey key) (fetched.get? key)
  /-- The text itself. -/
  | value (text : String) : Gives form fetched (.value text) (some (Bytes.ofString text))
  /-- The field is not there. -/
  | absent {path : String} (hread : form.get? path = .ok none) :
      Gives form fetched (.fieldPath path) none
  /-- The text in the field. -/
  | text {path s : String} (hread : form.get? path = .ok (some (.string s))) :
      Gives form fetched (.fieldPath path) (some (Bytes.ofString s))
  /-- The JSON text of what is in the field, if that is no text. -/
  | json {path : String} {v : Json} (hread : form.get? path = .ok (some v))
      (hv : ∀ s, v ≠ .string s) : Gives form fetched (.fieldPath path) (some (Bytes.ofString v.render))

namespace ConnectionDetail

variable {d : ConnectionDetail} {type : DetailType} {source : DetailSource} {name k : String}
  {form : Json} {fetched fetched' found out : ConnectionDetails} {bytes? : Option Bytes} {v : Bytes}
  {details : List ConnectionDetail} {place : Nat}

/-- The type of a detail: the one that it says, or else what can be seen first of a value, a key and a
path. -/
inductive IsOf (d : ConnectionDetail) : DetailType → Prop where
  /-- It says the type. -/
  | given {type : DetailType} (htype : d.type = some type) : d.IsOf type
  /-- There is a value. -/
  | value {text : String} (htype : d.type = none) (hvalue : d.value = some text) : d.IsOf .fromValue
  /-- There is a key, and no value. -/
  | secretKey {key : String} (htype : d.type = none) (hvalue : d.value = none)
      (hkey : d.fromConnectionSecretKey = some key) : d.IsOf .fromSecretKey
  /-- There is a path, and neither a value nor a key. -/
  | fieldPath {path : String} (htype : d.type = none) (hvalue : d.value = none)
      (hkey : d.fromConnectionSecretKey = none) (hpath : d.fromFieldPath = some path) :
      d.IsOf .fromFieldPath

/-- What a detail is stored under, and where its value comes from. A detail without all that its type
asks for is not stored. -/
inductive Stores (d : ConnectionDetail) : String → DetailSource → Prop where
  /-- Under its name, a value. -/
  | value {name text : String} (htype : d.IsOf .fromValue) (hname : d.name = some name)
      (hvalue : d.value = some text) : d.Stores name (.value text)
  /-- Under its name, or else under the key, what was fetched. -/
  | secretKey {key : String} (htype : d.IsOf .fromSecretKey)
      (hkey : d.fromConnectionSecretKey = some key) : d.Stores (d.name.getD key) (.secretKey key)
  /-- Under its name, a field. -/
  | fieldPath {name path : String} (htype : d.IsOf .fromFieldPath) (hname : d.name = some name)
      (hpath : d.fromFieldPath = some path) : d.Stores name (.fieldPath path)

/-- A detail has all that its type asks for. -/
def Valid (d : ConnectionDetail) : Prop := ∃ name source, d.Stores name source

/-- A detail is stored under a name and gives these bytes, if any. -/
def Yields (form : Json) (fetched : ConnectionDetails) (d : ConnectionDetail) (name : String)
    (bytes? : Option Bytes) : Prop := ∃ source, d.Stores name source ∧ source.Gives form fetched bytes?

/-- The last of some details that is stored under a name and gives anything gives these bytes. -/
def LastYields (form : Json) (fetched : ConnectionDetails) (details : List ConnectionDetail)
    (name : String) (v : Bytes) : Prop :=
  ∃ before d after, details = before ++ d :: after ∧ d.Yields form fetched name (some v) ∧
    ∀ later ∈ after, ∀ w, ¬ later.Yields form fetched name (some w)

/-! ### One detail -/

theorem isOf_iff : (d.type <|> d.inferredType?) = some type ↔ d.IsOf type := by
  constructor
  · intro h
    cases htype : d.type with
    | some given =>
      obtain rfl : given = type := by simpa [htype] using h
      exact .given htype
    | none =>
      have hinferred : d.inferredType? = some type := by simpa [htype] using h
      unfold inferredType? at hinferred
      cases hvalue : d.value with
      | some text =>
        obtain rfl : .fromValue = type := by simpa [hvalue] using hinferred
        exact .value htype hvalue
      | none =>
        cases hkey : d.fromConnectionSecretKey with
        | some key =>
          obtain rfl : .fromSecretKey = type := by simpa [hvalue, hkey] using hinferred
          exact .secretKey htype hvalue hkey
        | none =>
          cases hpath : d.fromFieldPath with
          | some path =>
            obtain rfl : .fromFieldPath = type := by simpa [hvalue, hkey, hpath] using hinferred
            exact .fieldPath htype hvalue hkey hpath
          | none => simp [hvalue, hkey, hpath] at hinferred
  · intro h
    cases h with
    | given htype => simp [htype]
    | value htype hvalue => simp [htype, inferredType?, hvalue]
    | secretKey htype hvalue hkey => simp [htype, inferredType?, hvalue, hkey]
    | fieldPath htype hvalue hkey hpath => simp [htype, inferredType?, hvalue, hkey, hpath]

theorem IsOf.unique {type' : DetailType} (h : d.IsOf type) (h' : d.IsOf type') : type = type' :=
  Option.some.inj ((isOf_iff.mpr h).symm.trans (isOf_iff.mpr h'))

/-- What a detail says is found out exactly if it says all that its type asks for. -/
theorem resolve_eq_ok : d.resolve = .ok (name, source) ↔ d.Stores name source := by
  constructor
  · intro h
    unfold resolve at h
    cases htype : (d.type <|> d.inferredType?) with
    | none => simp [htype, needed, bind, Except.bind] at h
    | some type =>
      have hof := isOf_iff.mp htype
      cases type with
      | fromSecretKey =>
        cases hkey : d.fromConnectionSecretKey with
        | none => simp [htype, hkey, needed, bind, Except.bind] at h
        | some key =>
          obtain ⟨rfl, rfl⟩ : d.name.getD key = name ∧ .secretKey key = source := by
            simpa [htype, hkey, needed, bind, Except.bind, pure, Except.pure] using h
          exact .secretKey hof hkey
      | fromFieldPath =>
        cases hname : d.name <;> cases hpath : d.fromFieldPath <;>
          simp [htype, hname, hpath, needed, bind, Except.bind, pure, Except.pure] at h
        obtain ⟨rfl, rfl⟩ := h
        exact .fieldPath hof hname hpath
      | fromValue =>
        cases hname : d.name <;> cases hvalue : d.value <;>
          simp [htype, hname, hvalue, needed, bind, Except.bind, pure, Except.pure] at h
        obtain ⟨rfl, rfl⟩ := h
        exact .value hof hname hvalue
  · intro h
    cases h with
    | value htype hname hvalue =>
      simp [resolve, isOf_iff.mpr htype, hname, hvalue, needed, bind, Except.bind, pure, Except.pure]
    | secretKey htype hkey =>
      simp [resolve, isOf_iff.mpr htype, hkey, needed, bind, Except.bind, pure, Except.pure]
    | fieldPath htype hname hpath =>
      simp [resolve, isOf_iff.mpr htype, hname, hpath, needed, bind, Except.bind, pure, Except.pure]

/-- A source is read exactly if it gives something, or nothing. -/
theorem read_eq_ok : read form fetched source = .ok bytes? ↔ source.Gives form fetched bytes? := by
  constructor
  · intro h
    cases source with
    | secretKey key =>
      obtain rfl := Except.ok.inj h
      exact .secretKey key
    | value text =>
      obtain rfl := Except.ok.inj h
      exact .value text
    | fieldPath path =>
      cases hread : form.get? path with
      | error cause => simp [read, hread] at h
      | ok value? =>
        obtain rfl : value?.map bytesOf = bytes? := by simpa [read, hread] using h
        cases value? with
        | none => exact .absent hread
        | some v =>
          cases v with
          | string s => exact .text hread
          | _ => exact .json hread nofun
  · intro h
    cases h with
    | secretKey key => rfl
    | value text => rfl
    | absent hread => simp [read, hread]
    | text hread => simp [read, hread, bytesOf]
    | @json path v hread hv =>
      cases v with
      | string s => exact absurd rfl (hv s)
      | _ => simp [read, hread, bytesOf]

/-- A detail is extracted exactly as it is stored and gives something, or nothing. -/
theorem extract_eq_ok :
    d.extract form fetched = .ok (name, bytes?) ↔ d.Yields form fetched name bytes? := by
  constructor
  · intro h
    unfold extract at h
    cases hresolve : d.resolve with
    | error fault => simp [hresolve, bind, Except.bind] at h
    | ok result =>
      obtain ⟨name', source⟩ := result
      cases hread : read form fetched source with
      | error fault => simp [hresolve, hread, bind, Except.bind] at h
      | ok given =>
        obtain ⟨rfl, rfl⟩ : name' = name ∧ given = bytes? := by
          simpa [hresolve, hread, bind, Except.bind, pure, Except.pure] using h
        exact ⟨source, resolve_eq_ok.mp hresolve, read_eq_ok.mp hread⟩
  · rintro ⟨source, hstores, hgives⟩
    simp [extract, resolve_eq_ok.mpr hstores, read_eq_ok.mpr hgives, bind, Except.bind, pure, Except.pure]

theorem Stores.unique {name' : String} {source' : DetailSource} (h : d.Stores name source)
    (h' : d.Stores name' source') : name = name' ∧ source = source' :=
  Prod.mk.inj (Except.ok.inj ((resolve_eq_ok.mpr h).symm.trans (resolve_eq_ok.mpr h')))

theorem Yields.unique {name' : String} {bytes?' : Option Bytes} (h : d.Yields form fetched name bytes?)
    (h' : d.Yields form fetched name' bytes?') : name = name' ∧ bytes? = bytes?' :=
  Prod.mk.inj (Except.ok.inj ((extract_eq_ok.mpr h).symm.trans (extract_eq_ok.mpr h')))

/-- A detail is extracted if it has all that its type asks for, and its field, if it is one, can be
read. -/
theorem exists_yields_iff : (∃ name bytes?, d.Yields form fetched name bytes?) ↔
    d.Valid ∧ ∀ name path, d.Stores name (.fieldPath path) → ∃ value?, form.get? path = .ok value? := by
  constructor
  · rintro ⟨name, bytes?, source, hstores, hgives⟩
    refine ⟨⟨name, source, hstores⟩, fun name' path hstores' => ?_⟩
    obtain ⟨rfl, rfl⟩ := hstores.unique hstores'
    cases hgives with
    | absent hread | text hread | json hread => exact ⟨_, hread⟩
  · rintro ⟨⟨name, source, hstores⟩, hreadable⟩
    cases source with
    | secretKey key => exact ⟨name, _, _, hstores, .secretKey key⟩
    | value text => exact ⟨name, _, _, hstores, .value text⟩
    | fieldPath path =>
      obtain ⟨value?, hread⟩ := hreadable name path hstores
      exact ⟨name, value?.map bytesOf, _, hstores, read_eq_ok.mp (by simp [read, hread])⟩

/-- What was fetched counts for a detail only under the key that it asks for. -/
theorem extract_congr
    (h : ∀ name key, d.Stores name (.secretKey key) → fetched'.get? key = fetched.get? key) :
    d.extract form fetched' = d.extract form fetched := by
  unfold extract
  cases hresolve : d.resolve with
  | error fault => rfl
  | ok result =>
    obtain ⟨name, source⟩ := result
    cases source with
    | secretKey key => simp [read, h name key (resolve_eq_ok.mp hresolve), bind, Except.bind]
    | value text | fieldPath path => rfl

/-! ### One after another -/

theorem extractFrom_cons_eq_ok :
    extractFrom form fetched place (d :: details) found = .ok out ↔
      ∃ name bytes?, d.Yields form fetched name bytes? ∧
        extractFrom form fetched (place + 1) details (found.insert? name bytes?) = .ok out := by
  rw [extractFrom]
  constructor
  · intro h
    split at h
    · cases h
    · next name bytes? hextract => exact ⟨name, bytes?, extract_eq_ok.mp hextract, h⟩
  · rintro ⟨name, bytes?, hyields, h⟩
    rw [extract_eq_ok.mpr hyields]
    exact h

theorem exists_extractFrom_iff :
    (∃ out, extractFrom form fetched place details found = .ok out) ↔
      ∀ d ∈ details, ∃ name bytes?, d.Yields form fetched name bytes? := by
  induction details generalizing place found with
  | nil => simp [extractFrom]
  | cons d rest ih =>
    simp only [List.forall_mem_cons, extractFrom_cons_eq_ok]
    constructor
    · rintro ⟨out, name, bytes?, hyields, h⟩
      exact ⟨⟨name, bytes?, hyields⟩, ih.mp ⟨out, h⟩⟩
    · rintro ⟨⟨name, bytes?, hyields⟩, hrest⟩
      obtain ⟨out, h⟩ := ih.mpr hrest
      exact ⟨out, name, bytes?, hyields, h⟩

theorem sorted_extractFrom (hfound : found.Sorted)
    (h : extractFrom form fetched place details found = .ok out) : out.Sorted := by
  induction details generalizing place found with
  | nil =>
    obtain rfl := Except.ok.inj h
    exact hfound
  | cons d rest ih =>
    obtain ⟨name, bytes?, -, hrest⟩ := extractFrom_cons_eq_ok.mp h
    refine ih ?_ hrest
    cases bytes? with
    | none => exact hfound
    | some bytes => exact hfound.insert

/-- After a detail was added to what was found before, its bytes stand under its name, if it gives
any. -/
theorem get?_insert?_yields (h : d.Yields form fetched name bytes?) :
    (found.insert? name bytes?).get? k = some v ↔ d.Yields form fetched k (some v) ∨
      (∀ w, ¬ d.Yields form fetched k (some w)) ∧ found.get? k = some v := by
  by_cases hgives : ∃ w, d.Yields form fetched k (some w)
  · obtain ⟨w, hw⟩ := hgives
    obtain ⟨rfl, rfl⟩ := h.unique hw
    have hnone : ¬ ∀ w, ¬ d.Yields form fetched name (some w) := fun hnone => hnone w hw
    rw [Dict.insert?, Dict.get?_insert_self]
    simp only [hnone, false_and, or_false, Option.some.injEq]
    constructor
    · rintro rfl
      exact hw
    · intro hv
      exact Option.some.inj (hw.unique hv).2
  · have hnone : ∀ w, ¬ d.Yields form fetched k (some w) := fun w hw => hgives ⟨w, hw⟩
    have hsame : (found.insert? name bytes?).get? k = found.get? k := by
      cases bytes? with
      | none => rfl
      | some bytes =>
        refine Dict.get?_insert_of_ne _ _ ?_
        rintro rfl
        exact hnone bytes h
    simp [hsame, hnone]

theorem lastYields_cons : LastYields form fetched (d :: details) k v ↔
    LastYields form fetched details k v ∨
      d.Yields form fetched k (some v) ∧ ∀ later ∈ details, ∀ w, ¬ later.Yields form fetched k (some w) := by
  constructor
  · rintro ⟨before, d', after, hsplit, hyields, hafter⟩
    cases before with
    | nil =>
      obtain ⟨rfl, rfl⟩ := List.cons.inj hsplit
      exact .inr ⟨hyields, hafter⟩
    | cons first before =>
      obtain ⟨rfl, rfl⟩ := List.cons.inj hsplit
      exact .inl ⟨before, d', after, rfl, hyields, hafter⟩
  · rintro (⟨before, d', after, rfl, hyields, hafter⟩ | ⟨hyields, hafter⟩)
    · exact ⟨d :: before, d', after, rfl, hyields, hafter⟩
    · exact ⟨[], d, details, rfl, hyields, hafter⟩

/-- Under a name stands what the last detail gave that gave anything, or else what was found before. -/
theorem get?_extractFrom (h : extractFrom form fetched place details found = .ok out) :
    out.get? k = some v ↔ LastYields form fetched details k v ∨
      (∀ d ∈ details, ∀ w, ¬ d.Yields form fetched k (some w)) ∧ found.get? k = some v := by
  induction details generalizing place found with
  | nil =>
    obtain rfl := Except.ok.inj h
    simp [LastYields]
  | cons d rest ih =>
    obtain ⟨name, bytes?, hyields, hrest⟩ := extractFrom_cons_eq_ok.mp h
    rw [ih hrest, get?_insert?_yields hyields, lastYields_cons, List.forall_mem_cons]
    constructor
    · rintro (hlast | ⟨hnone, hd | ⟨hd, hfound⟩⟩)
      · exact .inl (.inl hlast)
      · exact .inl (.inr ⟨hd, hnone⟩)
      · exact .inr ⟨⟨hd, hnone⟩, hfound⟩
    · rintro ((hlast | ⟨hd, hnone⟩) | ⟨⟨hd, hnone⟩, hfound⟩)
      · exact .inl hlast
      · exact .inr ⟨hnone, .inl hd⟩
      · exact .inr ⟨hnone, .inr ⟨hd, hfound⟩⟩

theorem extractFrom_congr (h : ∀ d ∈ details, d.extract form fetched' = d.extract form fetched) :
    extractFrom form fetched' place details found = extractFrom form fetched place details found := by
  induction details generalizing place found with
  | nil => rfl
  | cons d rest ih =>
    obtain ⟨hfirst, hrest⟩ := List.forall_mem_cons.mp h
    rw [extractFrom, extractFrom, hfirst]
    cases d.extract form fetched with
    | error fault => rfl
    | ok result => exact ih hrest

end ConnectionDetail

/-- Details are extracted exactly if each of them has all that its type asks for and each field among
them can be read. What is extracted has under a name just the bytes of the last detail that is stored
under the name and gives any, and nothing besides. What was fetched counts only under the keys that the
details ask for. -/
theorem Resource.extractDetails_exact (composed : Resource) (fetched : ConnectionDetails)
    (details : List ConnectionDetail) :
    ((∃ out, composed.extractDetails fetched details = .ok out) ↔ ∀ d ∈ details, d.Valid ∧
      ∀ name path, d.Stores name (.fieldPath path) → ∃ value?, composed.encode.get? path = .ok value?) ∧
    (∀ out, composed.extractDetails fetched details = .ok out → out.Sorted ∧
      ∀ k v, out.get? k = some v ↔ ConnectionDetail.LastYields composed.encode fetched details k v) ∧
    ∀ fetched' : ConnectionDetails, (∀ d ∈ details, ∀ name key, d.Stores name (.secretKey key) →
        fetched'.get? key = fetched.get? key) →
      composed.extractDetails fetched' details = composed.extractDetails fetched details := by
  refine ⟨?_, fun out hout => ⟨?_, fun k v => ?_⟩, fun fetched' hsame => ?_⟩
  · exact ConnectionDetail.exists_extractFrom_iff.trans
      (forall₂_congr fun d _ => ConnectionDetail.exists_yields_iff)
  · exact ConnectionDetail.sorted_extractFrom Dict.sorted_nil hout
  · simpa using ConnectionDetail.get?_extractFrom (k := k) (v := v) hout
  · exact ConnectionDetail.extractFrom_congr fun d hd => ConnectionDetail.extract_congr (hsame d hd)

/-- A bucket is to give a password, a plain one in its place, one that is nowhere in the place of that,
and its port. The plain one and the port are extracted, and the user, whom no detail asks for, does not
count. -/
theorem Resource.bucket_extracted :
    let composed : Resource := { body := [("status", .object [("port", .int 443)])] }
    let details : List ConnectionDetail := [
      { name := some "secret", fromConnectionSecretKey := some "password" },
      { name := some "secret", value := some "plain" },
      { name := some "secret", fromConnectionSecretKey := some "missing" },
      { name := some "port", fromFieldPath := some "status.port" }]
    let fetched : ConnectionDetails := [
      ("password", Bytes.ofString "hunter2"), ("user", Bytes.ofString "admin")]
    let anonymous : ConnectionDetails := [("password", Bytes.ofString "hunter2")]
    (∀ d ∈ details, d.Valid) ∧
      ∃ out, composed.extractDetails fetched details = .ok out ∧
        composed.extractDetails anonymous details = .ok out ∧
        ConnectionDetail.LastYields composed.encode fetched details "secret" (Bytes.ofString "plain") ∧
        ConnectionDetail.LastYields composed.encode fetched details "port" (Bytes.ofString "443") ∧
        out.get? "user" = none := by
  intro composed details fetched anonymous
  obtain ⟨hok, hexact, hfetched⟩ := Resource.extractDetails_exact composed fetched details
  have hout : composed.extractDetails fetched details =
      .ok [("port", Bytes.ofString "443"), ("secret", Bytes.ofString "plain")] := rfl
  have hget := (hexact _ hout).2
  have hsame : ∀ d ∈ details, ∀ name key, d.Stores name (.secretKey key) →
      anonymous.get? key = fetched.get? key := by
    simp only [details, List.forall_mem_cons]
    refine ⟨?_, ?_, ?_, ?_, nofun⟩ <;> intro name key hstores <;>
      cases ConnectionDetail.resolve_eq_ok.mpr hstores <;> rfl
  exact ⟨fun d hd => ((hok.mp ⟨_, hout⟩) d hd).1, _, hout, (hfetched anonymous hsame).trans hout,
    (hget _ _).mp (by decide +kernel), (hget _ _).mp (by decide +kernel), by decide +kernel⟩

end ResourceComposition
