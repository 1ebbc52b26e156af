import ResourceComposition.Proofs.Merging
import ResourceComposition.Resource.Condition

/-!
# Identity of stored objects

An object is told apart by its type, its namespace and its name. `Identity.On` says that a form has
an identity, and `Identity.Of` that a resource has it. Reading leads from the one to the other, and
patching a form with a resource of the same identity keeps it. An identity may be incomplete; where
it is not, writing a resource leads to a form of the same identity.
-/

namespace ResourceComposition

open Resource

/-- What tells objects apart. -/
structure Identity where
  /-- What is told of the type. -/
  type : Typing
  /-- The name, if there is one. -/
  name : Option String
  /-- The namespace, if there is one. -/
  ns : Option String

namespace Resource

variable {r : Resource} {field : String} {new : Json}

theorem get?_insert_header (new : Json) (hfield : field ∉ headerNames) {name : String}
    (hname : name ∈ headerNames) : (r.body.insert field new).get? name = r.body.get? name :=
  Dict.get?_insert_of_ne _ _ fun heq => hfield (heq ▸ hname)

/-- A field outside the header may be put into the body. -/
theorem Proper.insert (h : r.Proper) (hfield : field ∉ headerNames) :
    Proper { r with body := r.body.insert field new } where
  sorted := h.sorted.insert
  apiVersion := (get?_insert_header _ hfield (by simp [headerNames])).trans h.apiVersion
  metadata := (get?_insert_header _ hfield (by simp [headerNames])).trans h.metadata
  kind htype := (get?_insert_header _ hfield (by simp [headerNames])).trans (h.kind htype)

end Resource

namespace Identity

/-- The identity of an object that has a type and a name. -/
def full (type : TypeMeta) (name : String) (ns : Option String) : Identity :=
  ⟨type.typing, some name, ns⟩

/-- The key that an object of an identity is stored under. -/
def key (i : Identity) : ObjectKey :=
  ⟨(i.type.typeMeta.map (·.apiVersion)).getD "", (i.type.typeMeta.map (·.kind)).getD "",
    i.ns.getD "", i.name.getD ""⟩

/-- A resource has an identity. -/
structure Of (i : Identity) (r : Resource) : Prop where
  /-- The type. -/
  type : r.typeMeta = i.type.typeMeta
  /-- The name. -/
  name : r.metadata.name = i.name
  /-- The namespace. -/
  ns : r.metadata.ns = i.ns
  /-- The body leaves the identity to its place. -/
  proper : r.Proper
  /-- A kind that was left over is the one that is told. -/
  kind : ∀ value, r.body.get? "kind" = some value → value.string? = i.type.kind

/-- A form has an identity. -/
structure On (i : Identity) (form : Json) : Prop where
  /-- The fields are in order. -/
  sorted : form.fields.Sorted
  /-- The type. -/
  type : form.typing = i.type
  /-- The name. -/
  name : form.metadata.text? "name" = i.name
  /-- The namespace. -/
  ns : form.metadata.text? "namespace" = i.ns

variable {i : Identity} {r : Resource} {form form' : Json}

theorem getD_nonEmpty (s : String) : (nonEmpty s).getD "" = s := by
  unfold nonEmpty
  split
  · next h => exact (String.isEmpty_iff.mp h).symm
  · rfl

/-- The key of a resource, part by part. -/
theorem key_eq (r : Resource) :
    r.key = ⟨r.apiVersion, r.kind, r.metadata.ns.getD "", r.metadata.name.getD ""⟩ := by
  simp [Resource.key, Resource.reference, Reference.key, getD_nonEmpty]

theorem Of.key (h : i.Of r) : r.key = i.key := by
  simp [key_eq, Identity.key, Resource.apiVersion, Resource.kind, h.type, h.name, h.ns]

/-- A resource whose key has a name has one. -/
theorem unnamed_of_key (h : r.key.name ≠ "") : r.metadata.unnamed = false := by
  rw [key_eq] at h
  cases hname : r.metadata.name <;> simp_all [Metadata.unnamed]

/-- A resource with a type has no kind left over. -/
theorem of_full {type : TypeMeta} {name : String} {ns : Option String}
    (htype : r.typeMeta = some type) (hname : r.metadata.name = some name)
    (hns : r.metadata.ns = ns) (hproper : r.Proper) : (full type name ns).Of r where
  type := htype
  name := hname
  ns := hns
  proper := hproper
  kind value hvalue := by
    rw [hproper.kind (by simp [htype])] at hvalue
    cases hvalue

theorem On.read (h : i.On form) (hread : ofJson form = .ok r) : i.Of r ∧ r.StandsIn form := by
  obtain ⟨htype, hproper, hstands⟩ := of_ofJson hread h.sorted
  refine ⟨{
    type := h.type ▸ htype
    name := hstands.metadata.name.trans h.name
    ns := hstands.metadata.ns.trans h.ns
    proper := hproper
    kind := fun value hvalue => ?_ }, hstands⟩
  rw [← h.type]
  change value.string? = (form.field? "kind").bind Json.string?
  rw [hstands.kind value hvalue]
  rfl

theorem Of.encode {type : TypeMeta} {name : String} {ns : Option String}
    (h : (full type name ns).Of r) : (full type name ns).On r.encode where
  sorted := r.encode_sorted
  type := h.proper.typing_encode h.type
  name := h.proper.standsIn_encode.metadata.name.symm.trans h.name
  ns := h.proper.standsIn_encode.metadata.ns.symm.trans h.ns

/-- A form that is patched with a resource that has a type and a name takes its identity, but keeps
its namespace if the resource has none. -/
theorem On.patchedBy {type : TypeMeta} {name : String} {ns : Option String} (h : i.On form)
    (hr : (full type name ns).Of r) :
    (full type name (ns.or i.ns)).On (form.mergePatch (Memory.withoutStatus r.encode)) where
  sorted := Memory.sorted_patched h.sorted
  type := Memory.typing_patched form hr.proper hr.type
  name := by
    rw [Memory.metadata_patched form hr.proper, Metadata.name_merged, hr.name]
    rfl
  ns := by
    rw [Memory.metadata_patched form hr.proper, Metadata.ns_merged, hr.ns, h.ns]
    rfl

theorem On.patched (h : i.On form) (hr : i.Of r) :
    i.On (form.mergePatch (Memory.withoutStatus r.encode)) where
  sorted := Memory.sorted_patched h.sorted
  type := by
    obtain ⟨⟨apiVersion, kind⟩, name, ns⟩ := i
    obtain ⟨hapiVersion, hkind⟩ := Typing.mk.inj h.type
    have hleft := hr.kind
    rw [Json.typing, Memory.text?_patched form r (by decide),
      Memory.text?_patched form r (by decide), hr.proper.field?_apiVersion, hr.proper.field?_kind,
      hr.type]
    -- Without a type the form tells what it told before, or the kind that was left over.
    cases apiVersion <;> cases kind <;> cases hbody : r.body.get? "kind" <;>
      simp_all [Typing.typeMeta, Json.string?]
  name := by
    rw [Memory.metadata_patched form hr.proper, Metadata.name_merged, hr.name, h.name,
      Option.or_self]
  ns := by
    rw [Memory.metadata_patched form hr.proper, Metadata.ns_merged, hr.ns, h.ns, Option.or_self]

theorem Of.fresh (h : i.Of r) : i.Of (Memory.fresh r) where
  type := h.type
  name := h.name
  ns := h.ns
  proper := h.proper.congr rfl rfl
  kind := h.kind

/-- Putting a field outside the header into the body keeps the identity. -/
theorem Of.insert {field : String} {new : Json} (h : i.Of r) (hfield : field ∉ headerNames) :
    i.Of { r with body := r.body.insert field new } where
  type := h.type
  name := h.name
  ns := h.ns
  proper := h.proper.insert hfield
  kind value hvalue := by
    rw [get?_insert_header _ hfield (by simp [headerNames])] at hvalue
    exact h.kind value hvalue

/-- Setting a field outside the header keeps the identity. -/
theorem Of.setField {path field : String} {rest : FieldPath} {new : Json} {r' : Resource}
    (h : i.Of r) (hparse : FieldPath.parse path = .ok (.field field :: rest))
    (hfield : field ∉ headerNames) (hset : r.setField path new = .ok r') : i.Of r' := by
  simp only [Resource.setField, Json.set, hparse, bind, Except.bind] at hset
  cases hwrite : Json.write new (.field field :: rest) (.object r.body) with
  | error fault => simp [hwrite] at hset
  | ok body =>
    obtain ⟨child, rfl⟩ := Json.write_field hwrite
    obtain rfl : { r with body := r.body.insert field child } = r' := by
      simpa [hwrite, pure, Except.pure, Json.fields] using hset
    exact h.insert hfield

theorem Of.setCondition {now : Instant} {c : Condition} {changed : Bool} {r' : Resource}
    (h : i.Of r) (hset : r.setCondition now c = .ok (changed, r')) : i.Of r' := by
  unfold Resource.setCondition at hset
  split at hset
  · obtain ⟨-, rfl⟩ := Prod.mk.inj (Except.ok.inj hset)
    exact h
  · simp only [Except.map] at hset
    split at hset
    · cases hset
    · next written hfield =>
      obtain ⟨-, rfl⟩ := Prod.mk.inj (Except.ok.inj hset)
      have hparse : FieldPath.parse conditionsPath =
          .ok [.field "status", .field "conditions"] := rfl
      exact h.setField hparse (by simp [headerNames]) hfield

/-- Two forms have the same header: type and metadata are the same. -/
structure SameHeader (form form' : Json) : Prop where
  /-- The fields of the second are in order. -/
  sorted : form'.fields.Sorted
  /-- Each field of the header is the same. -/
  field : ∀ name ∈ headerNames, form'.field? name = form.field? name

theorem SameHeader.metadata (h : SameHeader form form') : form'.metadata = form.metadata := by
  rw [Json.metadata, h.field "metadata" (by simp [headerNames]), Json.metadata]

theorem SameHeader.typing (h : SameHeader form form') : form'.typing = form.typing := by
  rw [Json.typing, Json.text?, Json.text?, h.field "apiVersion" (by simp [headerNames]),
    h.field "kind" (by simp [headerNames])]
  rfl

theorem On.of_sameHeader (h : i.On form) (hsame : SameHeader form form') : i.On form' where
  sorted := hsame.sorted
  type := hsame.typing.trans h.type
  name := by rw [hsame.metadata, h.name]
  ns := by rw [hsame.metadata, h.ns]

/-- Patching the status leaves the header alone. -/
theorem sameHeader_statusOnly (h : form.fields.Sorted) (patch : Json) :
    SameHeader form (form.mergePatch (Memory.statusOnly patch)) where
  sorted := Memory.sorted_statusOnly h
  field _ hname := Memory.field?_statusOnly form patch (by
    rintro rfl
    simp [headerNames] at hname)

theorem On.versioned (h : i.On form) : i.On (Memory.versioned form) where
  sorted := Memory.sorted_versioned h.sorted
  type := (Memory.typing_versioned form).trans h.type
  name := by rw [Json.text?, Memory.metadata_versioned form (by decide)]; exact h.name
  ns := by rw [Json.text?, Memory.metadata_versioned form (by decide)]; exact h.ns

end Identity

theorem Metadata.notes_versioned (form : Json) :
    notes (Memory.versioned form).metadata = notes form.metadata := by
  rw [notes, Memory.metadata_versioned form (by decide), notes]

theorem Metadata.owners?_versioned (form : Json) :
    owners? (Memory.versioned form).metadata = owners? form.metadata := by
  rw [owners?, Memory.metadata_versioned form (by decide), owners?]

end ResourceComposition
