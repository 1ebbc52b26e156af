import ResourceComposition.Connection.Publication
import ResourceComposition.Proofs.Encoding
import ResourceComposition.Proofs.Filing
import ResourceComposition.Proofs.Repatching

/-!
# Published connection details

Connection details that are published to a store that keeps what it is given can be read from the
secret, byte for byte, and publishing them again writes nothing (`publication_round_trips`). So it is
whatever the secret held before, and whether or not it was there.

`Handler.Faithful` says what a store has to keep: an object that was created or replaced is read with
the fields that it had, its status apart. It may refuse to create or replace an object, and it may
write what it likes into the metadata. The store in memory is faithful (`Memory.faithful`).

Comparing the data of two secrets is comparing values, and what is the same value as connection
details is written the same (`ConnectionDetails.sameValue_encode`), since these are texts throughout.
-/

namespace ResourceComposition

open Resource

/-! ### The data of a secret -/

namespace ConnectionDetails

/-- A value holds connection details: it is an object with their names, and under each name stands
the text in base 64 of the bytes. -/
def StandIn (details : ConnectionDetails) (value : Json) : Prop :=
  ∃ fields, value = .object fields ∧ List.Forall₂ (fun field detail => field.1 = detail.1 ∧
    ∃ text, field.2 = .string text ∧ Base64.decode text = .ok detail.2) fields details

variable {details : ConnectionDetails} {value : Json}

theorem standIn_encode (details : ConnectionDetails) : details.StandIn details.encode := by
  refine ⟨_, rfl, ?_⟩
  induction details with
  | nil => exact .nil
  | cons detail rest ih => exact .cons ⟨rfl, _, rfl, Base64.decode_encode detail.2⟩ ih

/-- Details are read from the data that hold them. -/
theorem StandIn.meaning (h : details.StandIn value) :
    (Decode.dict Decode.bytes).meaning value = some details := by
  obtain ⟨fields, rfl, hfields⟩ := h
  simp only [Decode.dict]
  induction hfields with
  | nil => rfl
  | @cons field detail fields details hfield _ ih =>
    obtain ⟨hname, text, hvalue, hdecode⟩ := hfield
    have hbytes : Decode.bytes.meaning field.2 = some detail.2 := by
      rw [hvalue]
      exact congrArg Except.toOption hdecode
    rw [List.mapM_cons, ih]
    simp [hbytes, hname]

/-- What is the same value as details is written the same. -/
theorem sameValue_encode : value.sameValue details.encode = true ↔ value = details.encode := by
  cases value with
  | object fields =>
    rw [encode, Json.sameValue, Json.object.injEq]
    induction details generalizing fields with
    | nil => cases fields <;> simp [Dict.mapValues, Json.sameFields]
    | cons detail rest ih =>
      cases fields with
      | nil => simp [Dict.mapValues, Json.sameFields]
      | cons field fields =>
        obtain ⟨name, value⟩ := field
        have hvalue : value.sameValue (.string (Base64.encode detail.2)) = true ↔
            value = .string (Base64.encode detail.2) := by
          cases value <;> simp [Json.sameValue]
        simp only [Dict.mapValues, List.map_cons, Json.sameFields, Bool.and_eq_true,
          decide_eq_true_eq, hvalue, List.cons.injEq, Prod.mk.injEq]
        exact and_congr_right' (ih fields)
  | _ => simp [encode, Json.sameValue]

end ConnectionDetails

namespace Secret

variable {composite existing : Resource} {reference : Reference} {details : ConnectionDetails}

theorem data_holding : data (holding composite reference details) = details.encode := rfl

theorem sameData_holding :
    sameData existing (holding composite reference details) = true ↔
      data existing = details.encode :=
  ConnectionDetails.sameValue_encode

end Secret

/-! ### Stores that keep what they are given -/

/-- An object that reads as it is written, and under its own name. -/
structure Resource.Storable (r : Resource) : Prop where
  /-- Nothing of the header stands in the body. -/
  proper : r.Proper
  /-- The metadata are read as they are written. -/
  legible : r.metadata.Legible
  /-- No name is to be made up. -/
  generateName : r.metadata.generateName = none

/-- The identity and the version of an object may be what they like. -/
theorem Resource.Storable.congr {r r' : Resource} (h : r.Storable) (htype : r'.typeMeta = r.typeMeta)
    (hbody : r'.body = r.body) (hmetadata : r'.metadata = { r.metadata with
      uid := r'.metadata.uid, resourceVersion := r'.metadata.resourceVersion }) : r'.Storable where
  proper := h.proper.congr htype hbody
  legible := by
    rw [hmetadata]
    exact ⟨h.legible.creationTimestamp, h.legible.deletionGracePeriodSeconds,
      h.legible.deletionTimestamp, h.legible.generation, h.legible.managedFields⟩
  generateName := by
    rw [hmetadata]
    exact h.generateName

/-- An object has the fields of another, apart from its header and its status. -/
def Resource.Keeps (stored object : Resource) : Prop :=
  ∀ name ∉ headerNames, name ≠ "status" → stored.body.get? name = object.body.get? name

/-- A store that gives back the objects that it was given last; what it holds in a state is told as
reading would tell it. -/
structure Handler.Faithful {σ : Type} (store : Handler σ)
    (held : σ → ObjectKey → Except Error (Option Resource)) : Prop where
  /-- Reading tells what is held. -/
  get (reference : Reference) (s : σ) :
    (store.reply (.get reference) s).1 = held s reference.key
  /-- Reading changes nothing of what is held. -/
  unchanged (reference : Reference) (s : σ) :
    held (store.reply (.get reference) s).2 = held s
  /-- An object that was created is held. -/
  create {object created : Resource} {s after : σ} : object.Storable →
    store.reply (.create object false) s = (.ok created, after) →
    ∃ stored, held after object.key = .ok (some stored) ∧ stored.Keeps object
  /-- An object that was replaced is held as it was given. -/
  update {object updated : Resource} {s after : σ} : object.Storable →
    store.reply (.update object) s = (.ok updated, after) →
    ∃ stored, held after object.key = .ok (some stored) ∧ stored.Keeps object

theorem Handler.Faithful.of_get {σ : Type} {store : Handler σ}
    {held : σ → ObjectKey → Except Error (Option Resource)} (hstore : store.Faithful held)
    {reference : Reference} {s after : σ} {reply : Except Error (Option Resource)}
    (h : store.world (.get reference) s reply after) :
    held s reference.key = reply ∧ held after = held s := by
  obtain ⟨rfl, rfl⟩ := Prod.mk.inj h
  exact ⟨(hstore.get reference s).symm, hstore.unchanged reference s⟩

namespace Memory

variable {m after : Memory} {object created : Resource}

/-- What a store in memory holds under a key. -/
def held (m : Memory) (key : ObjectKey) : Except Error (Option Resource) :=
  match m.lookup? key with
  | some form => (ofJson form).map some
  | none => .ok none

theorem storable_fresh (h : object.Storable) : (fresh object).Storable := h.congr rfl rfl rfl

theorem held_put {key : ObjectKey} {form : Json} {r : Resource} (h : ofJson form = .ok r) :
    (m.put key form).held key = .ok (some r) := by
  rw [held, lookup?_put, if_pos rfl]
  exact congrArg (Except.map some) h

/-- The form of an object that reads as it is written is the form of an object with its fields. -/
theorem exists_keeps (h : object.Storable) :
    ∃ stored, ofJson object.encode = .ok stored ∧ stored.Keeps object := by
  have hobject : object.encode.isObject = true := rfl
  obtain ⟨stored, hread, -⟩ := exists_ofJson hobject h.proper.field?_metadata
    (Metadata.meaning_encode h.legible)
  refine ⟨stored, hread, fun name hname _ => ?_⟩
  rw [(of_ofJson hread object.encode_sorted).2.2.body name hname, h.proper.field?_body hname]

theorem keeps_of_replaceForm {stored : Resource} {form : Json} (h : object.Storable)
    (hread : ofJson (versioned (replaceForm object form)) = .ok stored) : stored.Keeps object := by
  have hsorted : (replaceForm object form).fields.Sorted := by
    rw [replaceForm]
    cases form.field? "status" with
    | none => exact object.encode_sorted
    | some status => exact object.encode_sorted.insert
  intro name hname hstatus
  have hmetadata : "metadata" ≠ name := by
    rintro rfl
    exact hname (by simp [headerNames])
  have hform : (replaceForm object form).field? name = object.encode.field? name := by
    rw [replaceForm]
    cases form.field? "status" with
    | none => rfl
    | some status => exact Dict.get?_insert_of_ne _ _ hstatus.symm
  rw [(of_ofJson hread (sorted_versioned hsorted)).2.2.body name hname,
    field?_versioned _ hmetadata, hform, h.proper.field?_body hname]

theorem faithful : handler.Faithful held where
  get _ _ := rfl
  unchanged _ _ := rfl
  create {object created m after} hobject h := by
    -- An object without a name is refused, since none is to be made up for it.
    have hnamed : object.metadata.unnamed = false := by
      by_contra hunnamed
      simp [handler, create, named, hobject.generateName, eq_true_of_ne_false hunnamed] at h
    obtain ⟨-, -, rfl⟩ := of_create hnamed (obeys_handler h)
    obtain ⟨stored, hread, hkeeps⟩ := exists_keeps (storable_fresh hobject)
    exact ⟨stored, held_put hread, hkeeps⟩
  update {object updated m after} hobject h := by
    simp only [handler, write] at h
    cases hlookup : m.lookup? object.key with
    | none => simp [hlookup] at h
    | some form =>
      simp only [hlookup, Prod.mk.injEq] at h
      obtain ⟨hread, rfl⟩ := h
      exact ⟨updated, held_put hread, keeps_of_replaceForm hobject hread⟩

end Memory

/-! ### Publishing -/

namespace Secret

variable {σ : Type} {composite desired : Resource} {reference : Reference}
  {details : ConnectionDetails} {world : World σ} {s after : σ} {log : List Exchange} {written : Bool}

/-- A secret that is to take the place of one of some version. -/
def inPlaceOf (version : Option String) (secret : Resource) : Resource :=
  { secret with metadata := { secret.metadata with resourceVersion := version } }

theorem storable_inPlaceOf (h : desired.Storable) (version : Option String) :
    (inPlaceOf version desired).Storable := h.congr rfl rfl rfl

theorem storable_holding (composite : Resource) (reference : Reference)
    (details : ConnectionDetails) : (holding composite reference details).Storable where
  proper :=
    { sorted := by
        simp only [holding, Dict.sorted_cons, List.forall_mem_cons]
        decide
      apiVersion := by simp [holding, Dict.get?_cons]
      metadata := by simp [holding, Dict.get?_cons]
      kind := by simp [holding, Dict.get?_cons] }
  legible := ⟨nofun, nofun, nofun, nofun, nofun⟩
  generateName := rfl

theorem key_holding (secret : SecretReference) (defaultNamespace : Option String) :
    (holding composite (Secret.reference secret defaultNamespace) details).key =
      (Secret.reference secret defaultNamespace).key := by
  simp [holding, Secret.reference, Resource.key, Resource.reference, Reference.key,
    Resource.apiVersion, Resource.kind, nonEmpty, apiVersion, kind]

/-- An object that keeps the fields of a secret has its data. -/
theorem data_of_keeps {stored secret : Resource} (h : stored.Keeps secret) :
    data stored = data secret := by
  rw [data, h "data" (by simp [headerNames]) (by decide), data]

/-- How a secret comes to hold what it should: it is created if it is not there, it stays if it holds
the same data, and it is replaced if it does not. -/
inductive Settles (world : World σ) (reference : Reference) (desired : Resource) :
    σ → List Exchange → Bool → σ → Prop where
  /-- There was no secret. -/
  | created {s middle after : σ} {created : Resource}
      (hget : world (.get reference) s (.ok none) middle)
      (hcreate : world (.create desired false) middle (.ok created) after) :
      Settles world reference desired s
        [⟨.get reference, .ok none⟩, ⟨.create desired false, .ok created⟩] true after
  /-- There was a secret with the data. -/
  | kept {s after : σ} {existing : Resource}
      (hget : world (.get reference) s (.ok (some existing)) after)
      (hsame : sameData existing desired = true) :
      Settles world reference desired s [⟨.get reference, .ok (some existing)⟩] false after
  /-- There was a secret with other data. -/
  | replaced {s middle after : σ} {existing updated : Resource}
      (hget : world (.get reference) s (.ok (some existing)) middle)
      (hother : sameData existing desired = false)
      (hupdate : world (.update (inPlaceOf existing.metadata.resourceVersion desired)) middle
        (.ok updated) after) :
      Settles world reference desired s [⟨.get reference, .ok (some existing)⟩,
        ⟨.update (inPlaceOf existing.metadata.resourceVersion desired), .ok updated⟩] true after

/-- The answer tells whether anything was written. -/
theorem Settles.eq_false_iff (h : Settles world reference desired s log written after) :
    written = false ↔ ∀ exchange ∈ log, exchange.request.Probes := by
  cases h <;> simp [Call.Probes]

end Secret

namespace Resource

variable {σ : Type} {world : World σ} {s after : σ} {log : List Exchange} {written : Bool}
  {composite : Resource} {secret : SecretReference} {defaultNamespace : Option String}
  {details : ConnectionDetails}

/-- The secret that a composite names for its connection details. -/
def detailsReference (composite : Resource) (secret : SecretReference)
    (defaultNamespace : Option String) : Reference :=
  Secret.reference secret (composite.metadata.ns <|> defaultNamespace)

theorem settles_of_publishDetails (hsecret : composite.secretReference? = .ok (some secret))
    (h : (composite.publishDetails defaultNamespace details).Succeeds world s log written after) :
    Secret.Settles world (composite.detailsReference secret defaultNamespace)
      (Secret.holding composite (composite.detailsReference secret defaultNamespace) details)
      s log written after := by
  obtain ⟨named, _, _, _, rfl, hfirst, hrest⟩ := Attempt.succeeds_bind.mp h
  obtain ⟨hnamed, rfl, rfl⟩ := Attempt.succeeds_ofExcept.mp hfirst
  obtain rfl : some secret = named := by
    rw [hsecret] at hnamed
    exact Except.ok.inj hnamed
  obtain ⟨existing?, middle, _, _, rfl, hread, hwrite⟩ := Attempt.succeeds_bind.mp hrest
  obtain ⟨hget, rfl⟩ := Program.reaches_ask.mp (Attempt.succeeds_asking.mp hread)
  cases existing? with
  | none =>
    obtain ⟨created, _, _, _, rfl, hasking, hend⟩ := Attempt.succeeds_bind.mp hwrite
    obtain ⟨hcreate, rfl⟩ := Program.reaches_ask.mp (Attempt.succeeds_asking.mp hasking)
    obtain ⟨rfl, rfl, rfl⟩ := Attempt.succeeds_pure.mp hend
    exact .created hget hcreate
  | some existing =>
    dsimp only at hwrite
    split at hwrite
    · next hsame =>
      obtain ⟨rfl, rfl, rfl⟩ := Attempt.succeeds_pure.mp hwrite
      exact .kept hget hsame
    · next hother =>
      obtain ⟨updated, _, _, _, rfl, hasking, hend⟩ := Attempt.succeeds_bind.mp hwrite
      obtain ⟨hupdate, rfl⟩ := Program.reaches_ask.mp (Attempt.succeeds_asking.mp hasking)
      obtain ⟨rfl, rfl, rfl⟩ := Attempt.succeeds_pure.mp hend
      exact .replaced hget (eq_false_of_ne_true hother) hupdate

/-- A secret that holds the details already is left alone. -/
theorem publishDetails_kept {existing : Resource}
    (hsecret : composite.secretReference? = .ok (some secret))
    (hget : world (.get (composite.detailsReference secret defaultNamespace)) s
      (.ok (some existing)) after) (hdata : Secret.data existing = details.encode) :
    (composite.publishDetails defaultNamespace details).Succeeds world s
      [⟨.get (composite.detailsReference secret defaultNamespace), .ok (some existing)⟩] false
      after := by
  refine Attempt.succeeds_bind.mpr ⟨some secret, s, [], _, rfl,
    Attempt.succeeds_ofExcept.mpr ⟨by rw [hsecret]; rfl, rfl, rfl⟩, ?_⟩
  refine Attempt.succeeds_bind.mpr ⟨some existing, after, _, [], rfl,
    Attempt.succeeds_asking.mpr (Program.reaches_ask.mpr ⟨hget, rfl⟩), ?_⟩
  dsimp only
  rw [if_pos (Secret.sameData_holding.mpr hdata)]
  exact Attempt.succeeds_pure.mpr ⟨rfl, rfl, rfl⟩

/-! ### In a faithful store -/

variable {store : Handler σ} {held : σ → ObjectKey → Except Error (Option Resource)}

/-- In whatever way the secret came to hold what it should, it holds the details. -/
theorem data_of_settles (hstore : store.Faithful held)
    (h : Secret.Settles store.world (composite.detailsReference secret defaultNamespace)
      (Secret.holding composite (composite.detailsReference secret defaultNamespace) details)
      s log written after) :
    ∃ stored, held after (composite.detailsReference secret defaultNamespace).key =
      .ok (some stored) ∧ Secret.data stored = details.encode := by
  generalize hdesired : Secret.holding composite
    (composite.detailsReference secret defaultNamespace) details = desired at h
  have hstorable : desired.Storable := hdesired ▸ Secret.storable_holding ..
  have hkey : desired.key = (composite.detailsReference secret defaultNamespace).key :=
    hdesired ▸ Secret.key_holding ..
  have hdata : Secret.data desired = details.encode := hdesired ▸ Secret.data_holding
  cases h with
  | created hget hcreate =>
    obtain ⟨stored, hstored, hkeeps⟩ := hstore.create hstorable hcreate
    exact ⟨stored, hkey ▸ hstored, (Secret.data_of_keeps hkeeps).trans hdata⟩
  | kept hget hsame =>
    -- Nothing was written, so what was read is what the store still holds.
    obtain ⟨hread, hheld⟩ := hstore.of_get hget
    exact ⟨_, by rw [hheld, hread], Secret.sameData_holding.mp (hdesired ▸ hsame)⟩
  | replaced hget hother hupdate =>
    obtain ⟨stored, hstored, hkeeps⟩ :=
      hstore.update (Secret.storable_inPlaceOf hstorable _) hupdate
    exact ⟨stored, hkey ▸ hstored, (Secret.data_of_keeps hkeeps).trans hdata⟩

/-- What comes of publishing connection details to a store: the answer, the state after it and the
record of the calls. -/
def publication (store : Handler σ) (s : σ) (defaultNamespace : Option String)
    (composite : Resource) (details : ConnectionDetails) :
    Except CompositionError Bool × σ × List Exchange :=
  (composite.publishDetails defaultNamespace details).run.run store.logged (s, [])

theorem publication_eq_iff :
    publication store s defaultNamespace composite details = (.ok written, after, log) ↔
      (composite.publishDetails defaultNamespace details).Succeeds store.world s log written after :=
  Program.run_logged_eq_iff

/-- Publishing connection details to a faithful store round-trips: the secret holds the details,
`false` is the answer exactly if nothing was written, and publishing the details again writes
nothing. -/
theorem publication_round_trips (hstore : store.Faithful held)
    (hsecret : composite.secretReference? = .ok (some secret))
    (h : publication store s defaultNamespace composite details = (.ok written, after, log)) :
    (∃ stored, held after (composite.detailsReference secret defaultNamespace).key =
      .ok (some stored) ∧ details.StandIn (Secret.data stored)) ∧
    (written = false ↔ ∀ exchange ∈ log, exchange.request.Probes) ∧
    ∃ last again, publication store after defaultNamespace composite details =
      (.ok false, last, again) ∧ ∀ exchange ∈ again, exchange.request.Probes := by
  have hsettles := settles_of_publishDetails hsecret (publication_eq_iff.mp h)
  obtain ⟨stored, hstored, hdata⟩ := data_of_settles hstore hsettles
  refine ⟨⟨stored, hstored, hdata ▸ details.standIn_encode⟩, hsettles.eq_false_iff, ?_⟩
  have hget : store.world (.get (composite.detailsReference secret defaultNamespace)) after
      (.ok (some stored)) (store.reply (.get _) after).2 :=
    Prod.ext ((hstore.get _ after).trans hstored) rfl
  exact ⟨_, _, publication_eq_iff.mpr (publishDetails_kept hsecret hget hdata), by simp [Call.Probes]⟩

/-- A keeper, whose password is kept in a secret. -/
def keeper : Resource where
  typeMeta := some ⟨"example.org/v1", "Keeper"⟩
  metadata := { name := some "keeper", ns := some "castle", uid := some "uid-keeper" }
  body := [("spec", .object [("writeConnectionSecretToRef", .object [("name", .string "gate")])])]

/-- The secret with another password. -/
def oldGate : Resource where
  typeMeta := some ⟨"v1", "Secret"⟩
  metadata := { name := some "gate", ns := some "castle", resourceVersion := some "7" }
  body := [("data", .object [("password", .string "b2xk")])]

/-- The new password. -/
def password : ConnectionDetails := [("password", [104, 117, 110, 116, 101, 114, 50])]

/-- The new password takes the place of the other one, once. -/
theorem password_renewed : keeper.secretReference? = .ok (some ⟨"gate", none⟩) ∧ ∃ after log,
    publication Memory.handler (({} : Memory).insert oldGate) none keeper password =
      (.ok true, after, log) ∧
    (∃ stored, after.held (keeper.detailsReference ⟨"gate", none⟩ none).key = .ok (some stored) ∧
      password.StandIn (Secret.data stored)) ∧
    ∃ last again, publication Memory.handler after none keeper password = (.ok false, last, again) := by
  have hsecret : keeper.secretReference? = .ok (some ⟨"gate", none⟩) := by decide +kernel
  obtain ⟨log, result, after, hreaches, hresult⟩ := Program.reaches_of_run Memory.handler
    (keeper.publishDetails none password).run (({} : Memory).insert oldGate)
    (fun result _ _ => result.toOption = some true) (by decide +kernel)
  obtain rfl : result = .ok true := by
    cases result <;> simp_all [Except.toOption]
  have hfirst := publication_eq_iff.mpr hreaches
  obtain ⟨hstored, -, last, again, hagain, -⟩ :=
    publication_round_trips Memory.faithful hsecret hfirst
  exact ⟨hsecret, after, log, hfirst, hstored, last, again, hagain⟩

end Resource

end ResourceComposition
