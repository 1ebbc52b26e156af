import ResourceComposition.ApiServer.Client
import ResourceComposition.Proofs.Course
import ResourceComposition.Proofs.Identity

/-!
# One place for all calls about a resource

A call that names a resource becomes a request to where the resource is found, which hangs on its type,
its namespace and its name (`Location.IsOf`). Reading goes a longer way there than writing: through a
reference, in which an empty part of a type is missing, and through a placeholder, which has no type
unless the reference gives both parts of one. A placeholder is found where the resource is
(`Resource.location_ofReference`), and so all these calls are made to one place, or none of them is sent.

Creating a resource asks for less, no more than its type. But where the others are sent, it goes to the
collection of the same place, so what it means to apply a resource is settled there
(`Resource.calls_concern_one_location`).
-/

namespace ResourceComposition

/-- A collection is the one that a resource belongs to. A namespace that is empty is none. -/
structure Collection.IsOf (c : Collection) (r : Resource) : Prop where
  /-- The type. -/
  type : c.type = .of r.apiVersion r.kind
  /-- The namespace. -/
  ns : c.ns = r.metadata.ns.bind Resource.nonEmpty

/-- A location is the one of a resource. -/
structure Location.IsOf (l : Location) (r : Resource) : Prop where
  /-- The collection. -/
  collection : l.collection.IsOf r
  /-- The name. -/
  name : r.metadata.name = some l.name

theorem Location.isOf_iff {l : Location} {r : Resource} :
    l.IsOf r ↔ (l.collection.type = .of r.apiVersion r.kind ∧
      l.collection.ns = r.metadata.ns.bind Resource.nonEmpty) ∧ r.metadata.name = some l.name :=
  ⟨fun h => ⟨⟨h.collection.type, h.collection.ns⟩, h.name⟩, fun h => ⟨⟨h.1.1, h.1.2⟩, h.2⟩⟩

/-- A request is made to a location, or to create something in the collection of the location. -/
inductive HttpRequest.At (l : Location) : HttpRequest → Prop where
  /-- Reading. -/
  | read : At l (.readAt l)
  /-- Creating. -/
  | create (dryRun : Bool) (object : Resource) : At l (.createIn l.collection dryRun object)
  /-- Replacing. -/
  | replace (object : Resource) : At l (.replaceAt l object)
  /-- Patching. -/
  | patch (change : Json) : At l (.patchAt l change)
  /-- Patching the status. -/
  | patchStatus (change : Json) : At l (.patchStatusAt l change)
  /-- Deleting. -/
  | delete : At l (.deleteAt l)

namespace Call

/-- The calls that name a resource. -/
inductive Names (r : Resource) : Call → Prop where
  /-- Reading what its reference names. -/
  | get : Names r (.get r.reference)
  /-- Replacing it. -/
  | update : Names r (.update r)
  /-- Patching it. -/
  | patch (change : Json) : Names r (.patch r change)
  /-- Patching its status. -/
  | patchStatus (change : Json) : Names r (.patchStatus r change)
  /-- Deleting it. -/
  | delete : Names r (.delete r)

/-- A call becomes a request to a location. -/
def Concerns (l : Location) (call : Call) : Prop :=
  ∃ request, call.httpRequest? = .ok (some request) ∧ request.At l

/-- A call is refused before anything is sent. -/
def Unsent (call : Call) : Prop :=
  ∃ cause, ∀ {σ : Type} (transport : Transport σ) (wire : σ),
    transport.call call wire = (call.refused cause, wire)

theorem unsent_of_error {call : Call} {cause : Error} (h : call.httpRequest? = .error cause) :
    call.Unsent := by
  refine ⟨cause, fun transport wire => ?_⟩
  rw [Transport.call, h]

end Call

namespace Resource

variable {r : Resource} {c : Collection} {l : Location} {call : Call}

/-- A resource has both parts of a type. -/
def Typed (r : Resource) : Prop := r.apiVersion ≠ "" ∧ r.kind ≠ ""

instance (r : Resource) : Decidable r.Typed := inferInstanceAs (Decidable (_ ∧ _))

/-- A resource has a type and a name. -/
def Addressable (r : Resource) : Prop := r.Typed ∧ r.metadata.unnamed = false

/-! ### Where a resource is found -/

theorem collection_eq_ok : r.collection = .ok c ↔ r.Typed ∧ c.IsOf r := by
  unfold collection Typed
  split
  · next h =>
    simp only [String.isEmpty_iff] at h
    grind
  · next h =>
    simp only [String.isEmpty_iff, not_or] at h
    constructor
    · intro hc
      obtain rfl := Except.ok.inj hc
      exact ⟨h, rfl, rfl⟩
    · rintro ⟨-, htype, hns⟩
      rw [← htype, ← hns]

theorem requiredName_eq_ok {name : String} :
    r.requiredName = .ok name ↔ r.metadata.unnamed = false ∧ r.metadata.name = some name := by
  unfold requiredName Metadata.unnamed
  cases r.metadata.name with
  | none => simp
  | some given =>
    by_cases h : given = ""
    · simp [nonEmpty, h]
    · simp [nonEmpty, h]

/-- A resource is found exactly if it has a type and a name, and then at its location. -/
theorem location_eq_ok : r.location = .ok l ↔ r.Addressable ∧ l.IsOf r := by
  unfold location
  constructor
  · intro h
    cases hname : r.requiredName with
    | error e => simp [hname, bind, Except.bind] at h
    | ok name =>
      cases hcollection : r.collection with
      | error e => simp [hname, hcollection, bind, Except.bind] at h
      | ok c =>
        obtain rfl : ⟨c, name⟩ = l := by
          simpa [hname, hcollection, bind, Except.bind, pure, Except.pure] using h
        obtain ⟨hnamed, hname⟩ := requiredName_eq_ok.mp hname
        obtain ⟨htyped, hc⟩ := collection_eq_ok.mp hcollection
        exact ⟨⟨htyped, hnamed⟩, hc, hname⟩
  · rintro ⟨⟨htyped, hnamed⟩, hc, hname⟩
    simp [requiredName_eq_ok.mpr ⟨hnamed, hname⟩, collection_eq_ok.mpr ⟨htyped, hc⟩, bind, Except.bind,
      pure, Except.pure]

theorem exists_isOf (h : r.Addressable) : ∃ l : Location, l.IsOf r := by
  have hnamed := h.2
  unfold Metadata.unnamed at hnamed
  cases hname : r.metadata.name with
  | none => simp [hname] at hnamed
  | some name => exact ⟨⟨⟨_, _⟩, name⟩, ⟨rfl, rfl⟩, hname⟩

/-! ### Where a placeholder is found -/

/-- A placeholder has the type of the resource, if the resource has one, and none otherwise. -/
theorem typeMeta_ofReference (r : Resource) :
    (ofReference r.reference).typeMeta = if r.Typed then some ⟨r.apiVersion, r.kind⟩ else none := by
  unfold Typed
  by_cases hversion : r.apiVersion = "" <;> by_cases hkind : r.kind = "" <;>
    simp [ofReference, reference, nonEmpty, hversion, hkind]

/-- A placeholder is found where the resource is that its reference was taken from. -/
theorem location_ofReference : (ofReference r.reference).location = .ok l ↔ r.location = .ok l := by
  have hmetadata : (ofReference r.reference).metadata = { name := r.metadata.name, ns := r.metadata.ns } :=
    rfl
  have htype := typeMeta_ofReference r
  by_cases htyped : r.Typed
  · rw [if_pos htyped] at htype
    have hversion : (ofReference r.reference).apiVersion = r.apiVersion := by simp [apiVersion, htype]
    have hkind : (ofReference r.reference).kind = r.kind := by simp [kind, htype]
    simp only [location_eq_ok, Addressable, Typed, Location.isOf_iff, hversion, hkind, hmetadata,
      Metadata.unnamed]
  · rw [if_neg htyped] at htype
    have hplaceholder : ¬ (ofReference r.reference).Typed := by
      simp [Typed, apiVersion, htype]
    simp only [location_eq_ok, Addressable, htyped, hplaceholder, false_and]

/-! ### One place for all calls -/

/-- A request that is made once a location is found. -/
theorem made_eq_map (place : Except Error Location) (make : Location → HttpRequest) :
    (do return some (make (← place))) = place.map (some ∘ make) := by
  cases place <;> rfl

/-- A call that names a resource becomes a request to where the resource is found. -/
theorem httpRequest?_of_names (h : call.Names r) :
    ∃ (place : Except Error Location) (make : Location → HttpRequest),
      call.httpRequest? = place.map (some ∘ make) ∧ (∀ l, place = .ok l ↔ r.location = .ok l) ∧
        ∀ l, (make l).At l := by
  cases h with
  | get => exact ⟨_, .readAt, made_eq_map .., fun _ => location_ofReference, fun _ => .read⟩
  | update => exact ⟨_, (.replaceAt · r), made_eq_map .., fun _ => Iff.rfl, fun _ => .replace r⟩
  | patch change =>
    exact ⟨_, (.patchAt · change), made_eq_map .., fun _ => Iff.rfl, fun _ => .patch change⟩
  | patchStatus change =>
    exact ⟨_, (.patchStatusAt · change), made_eq_map .., fun _ => Iff.rfl, fun _ => .patchStatus change⟩
  | delete => exact ⟨_, .deleteAt, made_eq_map .., fun _ => Iff.rfl, fun _ => .delete⟩

theorem concerns_of_names (hr : r.Addressable) (hl : l.IsOf r) (h : call.Names r) :
    call.Concerns l := by
  obtain ⟨place, make, hrequest, hplace, hmake⟩ := httpRequest?_of_names h
  refine ⟨make l, ?_, hmake l⟩
  rw [hrequest, (hplace l).mpr (location_eq_ok.mpr ⟨hr, hl⟩)]
  rfl

theorem unsent_of_names (hr : ¬ r.Addressable) (h : call.Names r) : call.Unsent := by
  obtain ⟨place, make, hrequest, hplace, -⟩ := httpRequest?_of_names h
  cases hfound : place with
  | ok l => exact absurd (location_eq_ok.mp ((hplace l).mp hfound)).1 hr
  | error cause =>
    have hfails : call.httpRequest? = .error cause := by
      rw [hrequest, hfound]
      rfl
    exact Call.unsent_of_error hfails

/-- A resource is created in the collection that it belongs to. -/
theorem httpRequest?_create (hr : r.Typed) (hc : c.IsOf r) (dryRun : Bool) :
    (Call.create r dryRun).httpRequest? = .ok (some (.createIn c dryRun r)) := by
  rw [Call.httpRequest?, collection_eq_ok.mpr ⟨hr, hc⟩]
  rfl

theorem concerns_create (hr : r.Typed) (hl : l.IsOf r) (dryRun : Bool) :
    (Call.create r dryRun).Concerns l :=
  ⟨_, httpRequest?_create hr hl.collection dryRun, .create dryRun r⟩

theorem unsent_create (hr : ¬ r.Typed) (dryRun : Bool) : (Call.create r dryRun).Unsent := by
  cases hcollection : r.collection with
  | ok c => exact absurd (collection_eq_ok.mp hcollection).1 hr
  | error cause =>
    have hfails : (Call.create r dryRun).httpRequest? = .error cause := by
      rw [Call.httpRequest?, hcollection]
      rfl
    exact Call.unsent_of_error hfails

/-! ### Applying a resource -/

/-- Whatever the world replies, applying a resource has to do with its location only. -/
theorem apply_concerns (hr : r.Addressable) (hl : l.IsOf r) : r.apply.Always (Call.Concerns l) := by
  have hcreate : r.createStored.Always (Call.Concerns l) :=
    Attempt.always_asking (Program.always_ask (concerns_create hr.1 hl false))
  unfold apply
  split
  · exact hcreate
  · refine (Attempt.always_asking (Program.always_ask (concerns_of_names hr hl .get))).bind ?_
    rintro (_ | _)
    · exact hcreate
    · exact Attempt.always_asking (Program.always_ask (concerns_of_names hr hl (.patch _)))

/-- If reading whether a resource is there is not sent, then applying it ends with that. -/
theorem apply_unsent (hr : ¬ r.Addressable)
    (hname : r.metadata.unnamed = false ∨ r.metadata.generateName = none) :
    ∃ cause, ∀ {σ : Type} (transport : Transport σ) (now : Instant) (state : Option Recorder × σ),
      r.apply.run.run (transport.handler now) state = (.error (.store .get cause), state) := by
  obtain ⟨cause, hget⟩ := unsent_of_names hr .get
  have hasks : ¬ (r.metadata.unnamed ∧ r.metadata.generateName.isSome) := by
    rcases hname with h | h <;> simp [h]
  refine ⟨cause, fun transport now state => ?_⟩
  unfold apply
  rw [if_neg hasks]
  have hreply : (transport.handler now).reply (.get r.reference) state = (.error cause, state) := by
    simp [Transport.handler, hget, Call.refused]
  change Program.run _ (.call (.get r.reference) _) state = _
  rw [Program.run, hreply]
  rfl

/-- Every call that names a resource is made to its location, creating it to the collection of the
location, and applying it makes no call to anywhere else. Or else the resource lacks a type or a name, and
then no such call is sent, and applying it ends when it is read whether the resource is there, unless the
server is to make up the name. A resource is created in the collection that it belongs to, also without a
name, but not without a type. -/
theorem calls_concern_one_location (r : Resource) :
    (r.Addressable → ∃ l : Location, l.IsOf r ∧ (∀ call : Call, call.Names r → call.Concerns l) ∧
      (∀ dryRun, (Call.create r dryRun).Concerns l) ∧ r.apply.Always (Call.Concerns l)) ∧
    (¬ r.Addressable → (∀ call : Call, call.Names r → call.Unsent) ∧
      (r.metadata.unnamed = false ∨ r.metadata.generateName = none → ∃ cause, ∀ {σ : Type}
        (transport : Transport σ) (now : Instant) (state : Option Recorder × σ),
        r.apply.run.run (transport.handler now) state = (.error (.store .get cause), state))) ∧
    ∀ dryRun, (r.Typed → ∃ c : Collection, c.IsOf r ∧
        (Call.create r dryRun).httpRequest? = .ok (some (.createIn c dryRun r))) ∧
      (¬ r.Typed → (Call.create r dryRun).Unsent) := by
  refine ⟨fun hr => ?_, fun hr => ⟨fun call => unsent_of_names hr, apply_unsent hr⟩, fun dryRun =>
    ⟨fun hr => ?_, fun hr => unsent_create hr dryRun⟩⟩
  · obtain ⟨l, hl⟩ := exists_isOf hr
    exact ⟨l, hl, fun call => concerns_of_names hr hl, concerns_create hr.1 hl, apply_concerns hr hl⟩
  · exact ⟨⟨_, _⟩, ⟨rfl, rfl⟩, httpRequest?_create hr ⟨rfl, rfl⟩ dryRun⟩

/-- A bucket whose namespace is empty is found among those without one, and a bucket without a name is
nowhere to be found. -/
theorem bucket_concerned :
    let bucket : Resource := {
      typeMeta := some ⟨"s3.example.org/v1", "Bucket"⟩
      metadata := { name := some "bucket", ns := some "" } }
    let nameless : Resource := { typeMeta := bucket.typeMeta }
    (∃ l : Location, l.path = "/apis/s3.example.org/v1/buckets/bucket" ∧
      (∀ call : Call, call.Names bucket → call.Concerns l) ∧ bucket.apply.Always (Call.Concerns l)) ∧
    (∀ call : Call, call.Names nameless → call.Unsent) ∧
      (Call.create nameless true).httpRequest? = .ok (some {
        method := .post
        address := "/apis/s3.example.org/v1/buckets?&dryRun=All&fieldManager=tessera-composer"
        content := some (.json nameless.encode) }) := by
  intro bucket nameless
  have hbucket : bucket.Addressable := ⟨by decide, by decide +kernel⟩
  have hnameless : ¬ nameless.Addressable := fun h => absurd h.2 (by decide +kernel)
  have htyped : nameless.Typed := by decide
  have hof : ResourceType.of bucket.apiVersion bucket.kind =
      ⟨"s3.example.org", "v1", "s3.example.org/v1", "Bucket", "buckets"⟩ := by decide +kernel
  obtain ⟨l, ⟨⟨htype, hns⟩, hname⟩, hcalls, -, happly⟩ := (calls_concern_one_location bucket).1 hbucket
  obtain ⟨-, hnowhere, hcreate⟩ := calls_concern_one_location nameless
  obtain ⟨c, ⟨hctype, hcns⟩, hrequest⟩ := (hcreate true).1 htyped
  refine ⟨⟨l, ?_, hcalls, happly⟩, (hnowhere hnameless).1, ?_⟩
  · obtain ⟨⟨type, ns⟩, name⟩ := l
    obtain rfl : type = _ := htype.trans hof
    obtain rfl : ns = _ := hns
    obtain rfl := Option.some.inj hname
    decide +kernel
  · obtain ⟨type, ns⟩ := c
    obtain rfl : type = _ := hctype.trans hof
    obtain rfl : ns = _ := hcns
    rw [hrequest]
    decide +kernel

end Resource

end ResourceComposition
