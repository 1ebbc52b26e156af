import ResourceComposition.Proofs.Idempotence
import ResourceComposition.Proofs.Publication
import ResourceComposition.Proofs.References
import ResourceComposition.Proofs.Upkeep

/-!
# Upright resources stay upright

All that a composition does to a resource between reading and writing it leaves it upright: it sets
fields of the body, lays a base over the form, gives the resource an identity, an owner and a name,
and applies patches. A resource that is written also has to lie where its type says, so it has to
have one; `Resource.Definite` are those that are upright and have a group and version.

Templates have to leave the type alone for that: `Template.KeepsTypes` says that their bases make
resources of a type, and that their patches do not write to it.
-/

namespace ResourceComposition

/-! ### Values in order -/

namespace Json

theorem ordered_ofPresent {entries : List (String × Option Json)}
    (hkeys : (entries.map (·.1)).Pairwise (· < ·)) (h : ∀ entry ∈ entries, ∀ v ∈ entry.2, v.Ordered) :
    (ofPresent entries).Ordered := ⟨sorted_present hkeys, orderedFields_present.mpr h⟩

theorem ordered_array_map {α : Type} {write : α → Json} (h : ∀ a, (write a).Ordered) (as : List α) :
    (Json.array (as.map write)).Ordered := by
  refine orderedItems_iff.mpr fun item hitem => ?_
  obtain ⟨a, -, rfl⟩ := List.mem_map.mp hitem
  exact h a

end Json

theorem Reference.ordered_encode (r : Reference) : r.encode.Ordered :=
  Json.ordered_ofPresent (by simp only [List.map]; decide) (by simp [Json.Ordered])

theorem Condition.ordered_encode (now : Instant) (c : Condition) : (c.encode now).Ordered := by
  refine Json.ordered_ofPresent (by simp only [List.map]; decide) ?_
  cases c.message.isEmpty <;> simp [Json.Ordered]

theorem ConnectionDetails.ordered_encode {details : ConnectionDetails} (h : details.Sorted) :
    details.encode.Ordered := by
  refine ⟨h.mapValues _, Json.orderedFields_iff.mpr fun entry hentry => ?_⟩
  obtain ⟨detail, -, rfl⟩ := List.mem_map.mp hentry
  trivial

/-! ### Upright resources stay upright -/

namespace Resource

variable {r r' : Resource}

theorem Upright.insert {field : String} {new : Json} (h : r.Upright) (hfield : field ∉ headerNames)
    (hnew : new.Ordered) : Upright { r with body := r.body.insert field new } :=
  ⟨h.proper.insert hfield, h.legible, h.metadata, Json.OrderedFields.insert h.body hnew⟩

/-- Setting a field two levels down in the body. -/
theorem Upright.setField {path outer inner : String} {new : Json} (h : r.Upright)
    (hparse : FieldPath.parse path = .ok [.field outer, .field inner]) (houter : outer ∉ headerNames)
    (hnew : new.Ordered) (hset : r.setField path new = .ok r') :
    r'.Upright ∧ r'.typeMeta = r.typeMeta := by
  obtain ⟨fields, hfields, rfl⟩ := (setField_eq_ok hparse).mp hset
  have hold : ((r.body.get? outer).getD .null).Ordered := h.body.getD outer
  obtain rfl := Json.eq_fields_of_fieldsForWriting hfields
  exact ⟨h.insert houter ⟨hold.sorted.insert, hold.orderedFields.insert hnew⟩, rfl⟩

theorem upright_ofReference (reference : Reference) : (ofReference reference).Upright where
  proper := by constructor <;> simp [ofReference, Dict.sorted_nil]
  legible := ⟨nofun, nofun, nofun, nofun, nofun⟩
  metadata := by simp [Metadata.ordered_encode_iff, ofReference]
  body := trivial

/-- A resource that is upright and has a group and version. -/
structure Definite (r : Resource) : Prop where
  /-- It can be written so that it is read again. -/
  upright : r.Upright
  /-- It has a group and version. -/
  typed : r.apiVersion ≠ ""

theorem Definite.congr (h : r.Definite) (hr : r'.Upright) (htype : r'.typeMeta = r.typeMeta) :
    r'.Definite where
  upright := hr
  typed := by
    rw [Resource.apiVersion, htype]
    exact h.typed

/-- Besides a type, no kind is left over. -/
theorem Definite.kind (h : r.Definite) : r.body.get? "kind" = none := by
  refine h.upright.proper.kind fun hnone => h.typed ?_
  rw [Resource.apiVersion, hnone]
  rfl

/-- Setting a condition. -/
theorem Definite.setCondition {now : Instant} {condition : Condition} {changed : Bool}
    (h : r.Definite) (hset : r.setCondition now condition = .ok (changed, r')) : r'.Definite := by
  obtain ⟨-, -, rfl⟩ | ⟨-, -, hfield⟩ := setCondition_cases hset
  · exact h
  · obtain ⟨hupright, htype⟩ := h.upright.setField parse_conditionsPath
      (by simp [headerNames]) (Json.ordered_array_map (Condition.ordered_encode now) _) hfield
    exact h.congr hupright htype

end Resource

/-! ### Rendering -/

open Resource

namespace Patch

variable {source? : PatchType → Option Json} {patches : List Patch}
  {composed composite r r' : Resource}

/-- Patches that copy from values in order leave a resource upright. -/
theorem applyTo_upright (hsource : ∀ type source, source? type = some source → source.Ordered)
    (hr : r.Upright) (h : applyTo source? patches r = .ok r') : r'.Upright := by
  obtain ⟨patched, hpatched, hread⟩ | ⟨-, rfl⟩ := applyTo_eq_ok h
  · refine upright_of_ofJson (copyFields_keeps hpatched hr.ordered ?_) hread
    exact fun _ _ _ _ _ hp hcopies _ _ hform hwrite =>
      hform.write (hcopies.ordered (hsource _ _ hp)) hwrite
  · exact hr

/-- The fields that tell a type. -/
def typeNames : List String := ["apiVersion", "kind"]

/-- Patches that do not write to the type leave it alone. -/
theorem applyTo_typeMeta
    (hp : ∀ p ∈ patches, (source? p.type).isSome → p.WritesWithin (· ∉ typeNames)) (hr : r.Proper)
    (h : applyTo source? patches r = .ok r') : r'.typeMeta = r.typeMeta := by
  obtain ⟨patched, hpatched, hread⟩ | ⟨-, rfl⟩ := applyTo_eq_ok h
  · have hwrites := copyFields_writes hp hpatched
    have htyping : patched.typing = r.encode.typing := by
      rw [Json.typing, Json.text?, Json.text?, hwrites.field _ (by simp [typeNames]),
        hwrites.field _ (by simp [typeNames])]
      rfl
    rw [(of_ofJson hread (hwrites.sorted r.encode_sorted)).1, htyping, hr.typeMeta_encode]
  · rfl

/-- What patches make of a composite has the composite's type and is upright. -/
theorem applyToComposite_definite
    (hp : ∀ p ∈ patches, p.type ≠ .patchSet → p.WritesWithin (· ∉ typeNames))
    (hcomposed : composed.Upright) (hcomposite : composite.Definite)
    (h : applyToComposite patches composed composite = .ok r) : r.Definite := by
  have hsource (type : PatchType) (source : Json) (h : compositeSource composed type = some source) :
      source.Ordered := by
    cases type with
    | toComposite => exact Option.some.inj h ▸ hcomposed.ordered
    | _ => cases h
  refine hcomposite.congr (applyTo_upright hsource hcomposite.upright h) ?_
  refine applyTo_typeMeta (fun p hmem hsome => hp p hmem ?_) hcomposite.upright.proper h
  rintro hset
  simp [compositeSource, hset] at hsome

end Patch

namespace Template

variable {t : Template} {environment : Json} {composite before r : Resource}

/-- A template that makes resources of a type, and whose patches do not write to a type. -/
structure KeepsTypes (t : Template) : Prop where
  /-- The base makes resources of a type. -/
  makes : ∃ type, t.Makes type ∧ type.apiVersion ≠ ""
  /-- Patches do not write to the type. -/
  patches : ∀ p ∈ t.patches, p.type ≠ .patchSet → p.WritesWithin (· ∉ Patch.typeNames)

theorem sorted_marked {marks : List (String × String)} {o : Option (Dict String)}
    (h : ∀ texts ∈ o, texts.Sorted) : ∀ texts ∈ Metadata.marked marks o, texts.Sorted := by
  cases marks with
  | nil => exact h
  | cons mark rest =>
    rintro texts ⟨⟩
    refine Dict.Sorted.insertAll ?_
    cases o with
    | none => exact Dict.sorted_nil
    | some texts => exact h texts rfl

theorem identify_upright {labels : List (String × String)} {namePrefix : String} (h : r.Upright) :
    (t.identify labels namePrefix before r).Upright := by
  obtain ⟨hnotes, hlabels, hmanaged⟩ := r.metadata.ordered_encode_iff.mp h.metadata
  refine ⟨identify_proper h.proper, identify_legible h.legible, ?_,
    (t.identify_spec labels namePrefix before r).body ▸ h.body⟩
  rw [identify_metadata, Metadata.ordered_encode_iff]
  exact ⟨sorted_marked hnotes, sorted_marked hlabels, hmanaged⟩

theorem adopt_upright (hr : r.Upright) {adopted : Resource}
    (h : adopt composite r = .ok adopted) : adopted.Upright := by
  obtain ⟨rfl, -, -⟩ := adopt_spec h
  exact Memory.upright_of_metadata hr rfl rfl rfl

/-- What is prepared from something upright has a type and is upright. -/
theorem prepare_definite (ht : t.KeepsTypes) (hcomposite : composite.Upright)
    (henvironment : environment.Ordered) (hbefore : before.Upright)
    (h : t.prepare environment composite before = .ok r) : r.Definite := by
  obtain ⟨merged, namePrefix, patched, hlaid, -, hpatched, hadopt⟩ := prepare_eq_ok h
  obtain ⟨type, hmakes, hne⟩ := ht.makes
  have hmerged : merged.Upright :=
    upright_of_ofJson (hbefore.ordered.overlay hmakes.ordered) (laidOver_eq_ok.mp hlaid).2
  obtain ⟨htype, -, -⟩ := laidOver_spec hmakes hbefore.proper hlaid
  have hid := t.identify_spec composite.identifyingLabels namePrefix before merged
  have hidentified :
      (t.identify composite.identifyingLabels namePrefix before merged).Upright :=
    identify_upright hmerged
  have hsame := Patch.applyTo_typeMeta (fun p hp hsource => ht.patches p hp (by
    rintro hset
    simp [Patch.composedSource, hset] at hsource)) hidentified.proper hpatched
  have hupright := Patch.applyTo_upright
    (Patch.composedSource_ordered hcomposite.ordered henvironment) hidentified hpatched
  refine ⟨adopt_upright hupright hadopt, ?_⟩
  obtain ⟨rfl, -, -⟩ := adopt_spec hadopt
  rw [Resource.apiVersion, hsame, hid.type, htype]
  exact hne

end Template

/-! ### Secrets -/

/-- The secret with the connection details of a composite is definite. -/
theorem Secret.definite_holding {details : ConnectionDetails} (h : details.Sorted)
    (composite : Resource) (reference : Reference) :
    (holding composite reference details).Definite where
  upright :=
    { proper := (storable_holding composite reference details).proper
      legible := (storable_holding composite reference details).legible
      metadata := by simp [Metadata.ordered_encode_iff, holding]
      body := ⟨ConnectionDetails.ordered_encode h, trivial, trivial⟩ }
  typed := by simp [holding, Resource.apiVersion, Secret.apiVersion]

end ResourceComposition
