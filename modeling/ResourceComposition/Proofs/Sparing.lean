import ResourceComposition.Proofs.Rendered

/-!
# Patches that leave an object where it is

What tells one object from another stands at four places of its form: the two parts of its type, its
name, and its namespace. A patch that writes apart from these may write to labels, annotations or
what it likes, and the object stays the one it was (`Patch.applyTo_identity`). A patch that writes
apart from the owner references leaves the owners as they are (`Patch.applyTo_owners`).

Both come from one frame law: what stands below fields stays when something is written apart from it
(`Json.below?_write`), whether anything stands there or not.
-/

namespace ResourceComposition

open Resource

/-! ### What stands below fields -/

namespace Json

variable {value new after : Json} {path : FieldPath} {names : List String}

/-- What stands below fields, one below the other. -/
def below? : List String → Json → Option Json
  | [], value => some value
  | name :: rest, value => (value.field? name).bind (below? rest)

theorem below?_null (h : names ≠ []) : Json.null.below? names = none := by
  cases names with
  | nil => exact absurd rfl h
  | cons name rest => rfl

/-- A null stands for what is not there. -/
theorem below?_cons (name : String) (rest : List String) (h : rest ≠ []) (value : Json) :
    value.below? (name :: rest) = ((value.field? name).getD .null).below? rest := by
  rw [below?]
  cases value.field? name with
  | none => exact (below?_null h).symm
  | some child => rfl

theorem below?_metadata (form : Json) (name : String) :
    form.below? ["metadata", name] = form.metadata.field? name := by
  rw [below?_cons _ _ (by simp), ← metadata, below?]
  cases form.metadata.field? name <;> rfl

/-- What is written at an index has no fields, and neither has what was there. -/
theorem field?_write_index {position : Nat} {rest : FieldPath}
    (h : write new (.index position :: rest) value = .ok after) (name : String) :
    after.field? name = none ∧ value.field? name = none := by
  obtain ⟨items, child, hitems, -, rfl⟩ := write_index_eq_ok.mp h
  refine ⟨rfl, ?_⟩
  cases value <;> first | rfl | cases hitems

/-- What stands below fields stays when something is written apart from it. -/
theorem below?_write (h : write new path value = .ok after)
    (hapart : path.Apart (names.map Segment.field)) : after.below? names = value.below? names := by
  induction names generalizing path value after with
  | nil => exact absurd rfl hapart.ne_nil.2
  | cons name rest ih =>
    cases path with
    | nil => exact absurd rfl hapart.ne_nil.1
    | cons segment others =>
      cases segment with
      | index position =>
        obtain ⟨hafter, hvalue⟩ := field?_write_index h name
        rw [below?, below?, hafter, hvalue]
      | field other =>
        by_cases hsame : other = name
        · subst hsame
          have hbelow : FieldPath.Apart others (rest.map Segment.field) :=
            FieldPath.apart_cons.mp hapart
          have hrest : rest ≠ [] := fun hnil => hbelow.ne_nil.2 (by rw [hnil]; rfl)
          obtain ⟨fields, child, hfields, hchild, rfl⟩ := write_field_eq_ok.mp h
          rw [eq_fields_of_fieldsForWriting hfields] at hchild ⊢
          rw [below?_cons _ _ hrest, below?_cons _ _ hrest, field?_object, Dict.get?_insert_self]
          exact ih hchild hbelow
        · rw [below?, below?, write_field_ne h hsame]

/-- Writing below a value keeps its fields in order. -/
theorem sorted_write (h : write new path value = .ok after) (hpath : path ≠ [])
    (hvalue : value.fields.Sorted) : after.fields.Sorted := by
  cases path with
  | nil => exact absurd rfl hpath
  | cons segment rest =>
    cases segment with
    | field name => exact write_field_sorted h hvalue
    | index position =>
      obtain ⟨items, child, -, -, rfl⟩ := write_index_eq_ok.mp h
      exact Dict.sorted_nil

end Json

/-! ### What tells objects apart -/

/-- The fields that tell one object from another. -/
def Json.identifying : List (List String) :=
  [["apiVersion"], ["kind"], ["metadata", "name"], ["metadata", "namespace"]]

/-- The fields with the owners of an object. -/
def Json.owning : List String := ["metadata", "ownerReferences"]

/-- A resource is the same object as another. -/
structure Resource.SameObject (r r' : Resource) : Prop where
  /-- The body leaves the header to its place. -/
  proper : r'.Proper
  /-- The type is the same. -/
  type : r'.typeMeta = r.typeMeta
  /-- The name is the same. -/
  name : r'.metadata.name = r.metadata.name
  /-- The namespace is the same. -/
  ns : r'.metadata.ns = r.metadata.ns
  /-- A kind that was left over was there before. -/
  kind : ∀ value, r'.body.get? "kind" = some value → r.body.get? "kind" = some value

theorem Identity.Of.same {i : Identity} {r r' : Resource} (h : i.Of r) (hsame : r.SameObject r') :
    i.Of r' where
  type := hsame.type.trans h.type
  name := hsame.name.trans h.name
  ns := hsame.ns.trans h.ns
  proper := hsame.proper
  kind value hvalue := h.kind value (hsame.kind value hvalue)

theorem Resource.SameObject.key {r r' : Resource} (h : r.SameObject r') : r'.key = r.key := by
  rw [Identity.key_eq, Identity.key_eq, h.name, h.ns]
  simp [Resource.apiVersion, Resource.kind, h.type]

namespace Patch

variable {p : Patch} {patches : List Patch} {source? : PatchType → Option Json} {place : Nat}
  {target after : Json} {r r' : Resource} {kept : List (List String)}

/-- Wherever a patch writes, it is apart from a path. -/
def WritesApart (path : FieldPath) (p : Patch) : Prop :=
  ∀ origin segments, p.fromFieldPath = some origin →
    FieldPath.parse (p.toFieldPath.getD origin) = .ok segments → segments.Apart path

/-- A patch leaves alone what tells one object from another. -/
def SparesIdentity (p : Patch) : Prop :=
  ∀ names ∈ Json.identifying, p.WritesApart (names.map .field)

/-- A patch leaves the owners of an object alone. -/
def SparesOwners (p : Patch) : Prop := p.WritesApart (Json.owning.map .field)

/-- What is written under a field is apart from what stands under another. -/
theorem WritesUnder.apart {field name : String} {rest : FieldPath} (h : p.WritesUnder field)
    (hne : field ≠ name) : p.WritesApart (.field name :: rest) := by
  intro origin segments horigin hparse
  obtain ⟨_, below, rfl, rfl⟩ := h origin segments horigin hparse
  simp [FieldPath.Apart, List.cons_prefix_cons, hne, Ne.symm hne]

/-- Patches that write below some of the fields and apart from others keep these, and the order of
all fields. -/
theorem copyFields_below (hkept : kept ≠ [])
    (hp : ∀ p ∈ patches, (source? p.type).isSome → ∀ names ∈ kept, p.WritesApart (names.map .field))
    (h : copyFields source? place patches target = .ok after) :
    (target.fields.Sorted → after.fields.Sorted) ∧
      ∀ names ∈ kept, after.below? names = target.below? names := by
  refine copyFields_keeps h (I := fun form => (target.fields.Sorted → form.fields.Sorted) ∧
    ∀ names ∈ kept, form.below? names = target.below? names) ⟨id, fun _ _ => rfl⟩ ?_
  rintro p hmem source v path hsource ⟨origin, horigin, -, hparse⟩ form form' ⟨hsorted, hbelow⟩ hwrite
  have hapart (names : List String) (hnames : names ∈ kept) : path.Apart (names.map .field) :=
    hp p hmem (by simp [hsource]) names hnames origin path horigin hparse
  obtain ⟨names, hnames⟩ := List.exists_mem_of_ne_nil kept hkept
  exact ⟨Json.sorted_write hwrite (hapart names hnames).ne_nil.1 ∘ hsorted, fun names hnames =>
    (Json.below?_write hwrite (hapart names hnames)).trans (hbelow names hnames)⟩

/-- Patches that leave alone what tells objects apart make no other object of a resource. -/
theorem applyTo_identity (hp : ∀ p ∈ patches, (source? p.type).isSome → p.SparesIdentity)
    (hproper : r.Proper) (h : applyTo source? patches r = .ok r') : r.SameObject r' := by
  obtain ⟨patched, hpatched, hread⟩ | ⟨-, rfl⟩ := applyTo_eq_ok h
  · have hne : Json.identifying ≠ [] := by simp [Json.identifying]
    obtain ⟨hsorted, hbelow⟩ := copyFields_below hne hp hpatched
    have htop (name : String) (hname : [name] ∈ Json.identifying) :
        patched.field? name = r.encode.field? name := by
      simpa [Json.below?] using hbelow [name] hname
    have hmeta (name : String) (hname : ["metadata", name] ∈ Json.identifying) :
        patched.metadata.text? name = r.encode.metadata.text? name := by
      have hsame := hbelow _ hname
      rw [Json.below?_metadata, Json.below?_metadata] at hsame
      rw [Json.text?, hsame, Json.text?]
    have htyping : patched.typing = r.encode.typing := by
      rw [Json.typing, Json.text?, Json.text?, htop "apiVersion" (by simp [Json.identifying]),
        htop "kind" (by simp [Json.identifying])]
      rfl
    obtain ⟨htype, hproper', hstands⟩ := of_ofJson hread (hsorted r.encode_sorted)
    rw [htyping, hproper.typeMeta_encode] at htype
    have hencode := hproper.standsIn_encode
    refine ⟨hproper', htype, ?_, ?_, fun value hvalue => ?_⟩
    · rw [hstands.metadata.name, hmeta "name" (by simp [Json.identifying]), hencode.metadata.name]
    · rw [hstands.metadata.ns, hmeta "namespace" (by simp [Json.identifying]), hencode.metadata.ns]
    · exact hstands.kind_of_encode hproper hproper' htype (htop "kind" (by simp [Json.identifying]))
        hvalue
  · exact ⟨hproper, rfl, rfl, rfl, fun _ => id⟩

/-- Patches that leave the owners alone keep them. -/
theorem applyTo_owners (hp : ∀ p ∈ patches, (source? p.type).isSome → p.SparesOwners)
    (hproper : r.Proper) (h : applyTo source? patches r = .ok r') :
    r'.metadata.ownerReferences = r.metadata.ownerReferences := by
  obtain ⟨patched, hpatched, hread⟩ | ⟨-, rfl⟩ := applyTo_eq_ok h
  · have hapart (p : Patch) (hmem : p ∈ patches) (hsource : (source? p.type).isSome) :
        ∀ names ∈ [Json.owning], p.WritesApart (names.map .field) :=
      List.forall_mem_singleton.mpr (hp p hmem hsource)
    obtain ⟨hsorted, hbelow⟩ := copyFields_below (by simp) hapart hpatched
    have hsame := hbelow Json.owning (by simp)
    rw [Json.owning, Json.below?_metadata, Json.below?_metadata] at hsame
    obtain ⟨-, -, hstands⟩ := of_ofJson hread (hsorted r.encode_sorted)
    rw [hstands.metadata.owners, hproper.standsIn_encode.metadata.owners, Metadata.owners?, hsame,
      Metadata.owners?]
  · rfl

end Patch

end ResourceComposition
