import ResourceComposition.Proofs.Custody
import ResourceComposition.Proofs.Sparing
import ResourceComposition.Proofs.Tidiness

/-!
# The list of references persists

When a plan is carried out, the references to all resources are written into the composite first. The
composite is patched and written again after that, with its status. None of this touches the list: in
the end the composite refers to the resources of the plan, in the order of their templates.

The composite lies under one key all the time. `Memory.OrderlyAt` is what the store has to keep to at
that key; what it holds under other keys does not matter.
-/

namespace ResourceComposition

open Resource

/-! ### Patches that leave the list alone -/

/-- Where a composite names its resources. -/
def FieldPath.toReferences : FieldPath := [.field "spec", .field "resourceRefs"]

namespace Json

variable {form after v : Json} {path : FieldPath} {references : List Reference}

/-- A list of references stays when something is written apart from it. -/
theorem Refers.write (h : form.spec.Refers references)
    (hapart : path.Apart FieldPath.toReferences) (hwrite : Json.write v path form = .ok after) :
    after.spec.Refers references := by
  have hobject : form = .object form.fields := by
    have hwritten := h.written
    cases form <;> simp_all [spec, field?, fields]
  rw [hobject] at hwrite
  cases path with
  | nil => exact absurd rfl hapart.ne_nil.1
  | cons segment rest =>
    cases segment with
    | index position => simp [Json.write, itemsForWriting, bind, Except.bind] at hwrite
    | field name =>
      by_cases hname : name = "spec"
      · subst hname
        have hrest : FieldPath.Apart rest [.field "resourceRefs"] := FieldPath.apart_cons.mp hapart
        obtain ⟨fields, child, hfields, hchild, rfl⟩ := write_field_eq_ok.mp hwrite
        obtain rfl := Except.ok.inj hfields
        change Json.write v rest form.spec = .ok child at hchild
        rw [spec, field?_object, Dict.get?_insert_self, Option.getD_some]
        cases rest with
        | nil => exact absurd rfl hrest.ne_nil.1
        | cons segment' rest' =>
          cases segment' with
          | index position =>
            rw [h.eq_object] at hchild
            simp [Json.write, itemsForWriting, bind, Except.bind] at hchild
          | field other =>
            have hne : other ≠ "resourceRefs" := by
              rintro rfl
              exact hrest.2 ⟨rest', rfl⟩
            exact ⟨write_field_sorted hchild h.sorted,
              (write_field_ne hchild hne).trans h.written⟩
      · rw [← hobject] at hwrite
        rw [spec, write_field_ne hwrite hname]
        exact h

end Json

namespace Patch

variable {p : Patch} {patches : List Patch} {place : Nat} {source target after v : Json}
  {path : FieldPath} {sources : PatchType → Option Json} {references : List Reference}
  {c c' : Resource} {key : ObjectKey}

/-- A patch leaves alone what a composite is told by, and the list of its resources. -/
structure SparesComposite (p : Patch) : Prop where
  /-- It leaves the type, the name and the namespace alone. -/
  identity : p.SparesIdentity
  /-- It does not write to the list, to the way there, or into the list. -/
  references : p.WritesApart FieldPath.toReferences

theorem copyFields_refers
    (hp : ∀ p ∈ patches, (sources p.type).isSome → p.WritesApart FieldPath.toReferences)
    (h : copyFields sources place patches target = .ok after)
    (htarget : target.spec.Refers references) : after.spec.Refers references := by
  refine copyFields_keeps (I := (·.spec.Refers references)) h htarget ?_
  rintro p hmem source v path hsource ⟨origin, horigin, -, hparse⟩ form form' hform hwrite
  exact hform.write (hp p hmem (by simp [hsource]) origin path horigin hparse) hwrite

end Patch

/-- A composite lies under a key and refers to resources. -/
structure Resource.RefersAt (key : ObjectKey) (references : List Reference) (c : Resource) : Prop where
  /-- It lies under the key. -/
  lies : c.LiesAt key
  /-- It refers to the resources. -/
  refers : c.spec.Refers references

/-- A form lies under a key and refers to resources. -/
structure Json.RefersAt (key : ObjectKey) (references : List Reference) (form : Json) : Prop where
  /-- It lies under the key. -/
  lies : form.LiesAt key
  /-- It refers to the resources. -/
  refers : form.spec.Refers references

theorem Json.RefersAt.read {key : ObjectKey} {references : List Reference} {form : Json}
    {r : Resource} (h : form.RefersAt key references) (hread : ofJson form = .ok r) :
    r.RefersAt key references where
  lies := h.lies.read hread
  refers := (of_ofJson hread h.lies.sorted).2.2.spec ▸ h.refers

namespace Resource

variable {key : ObjectKey} {references : List Reference} {c c' r : Resource} {patches : List Patch}

/-- The references that were set are those that the composite refers to. -/
theorem refers_of_setResourceRefs (hsorted : c.spec.fields.Sorted)
    (h : c.setResourceRefs references = .ok c') : c'.spec.Refers references := by
  obtain ⟨fields, hfields, rfl⟩ := (setField_eq_ok parse_referencesPath).mp h
  rw [spec, Dict.get?_insert_self]
  exact ⟨(Json.sorted_fieldsForWriting hfields hsorted).insert, Dict.get?_insert_self ..⟩

theorem LiesAt.setResourceRefs (hc : c.LiesAt key) (h : c.setResourceRefs references = .ok c') :
    c'.LiesAt key := by
  obtain ⟨type, name, ns, rfl, hof⟩ := hc
  exact ⟨type, name, ns, rfl, hof.setField parse_referencesPath (by simp [headerNames]) h⟩

/-- A resource with a kind and a name lies under its own key. -/
theorem liesAt_key (hproper : r.Proper) (hnamed : r.metadata.unnamed = false)
    (hkind : r.key.kind ≠ "") : r.LiesAt r.key := by
  cases htype : r.typeMeta with
  | none =>
    refine absurd ?_ hkind
    simp [Resource.key, Reference.key, Resource.reference, Resource.kind, htype, nonEmpty]
  | some type =>
    cases hname : r.metadata.name with
    | none => simp [Metadata.unnamed, hname] at hnamed
    | some name =>
      have hof : (Identity.full type name r.metadata.ns).Of r :=
        Identity.of_full htype hname rfl hproper
      exact ⟨type, name, _, hof.key.symm, hof⟩

/-- Patches that spare the composite leave it under its key, with its list. -/
theorem RefersAt.patched {composed : Resource} (hc : c.RefersAt key references)
    (hpatches : ∀ p ∈ patches, p.type = .toComposite → p.SparesComposite)
    (h : Patch.applyToComposite patches composed c = .ok c') : c'.RefersAt key references := by
  have hspares (p : Patch) (hp : p ∈ patches)
      (hsource : (Patch.compositeSource composed p.type).isSome) : p.SparesComposite := by
    refine hpatches p hp ?_
    cases htype : p.type <;> simp [Patch.compositeSource, htype] at hsource
    rfl
  have hsame := Patch.applyTo_identity (fun p hp hsource => (hspares p hp hsource).identity)
    hc.lies.proper h
  obtain ⟨type, name, ns, rfl, hof⟩ := hc.lies
  refine ⟨⟨type, name, ns, rfl, hof.same hsame⟩, ?_⟩
  obtain ⟨patched, hpatched, hread⟩ | ⟨-, rfl⟩ := Patch.applyTo_eq_ok h
  · have hencoded : c.encode.spec.Refers references :=
      hof.proper.standsIn_encode.spec ▸ hc.refers
    have hrefers : patched.spec.Refers references :=
      Patch.copyFields_refers (fun p hp hsource => (hspares p hp hsource).references) hpatched
        hencoded
    have hne : Json.identifying ≠ [] := by simp [Json.identifying]
    obtain ⟨hsorted, -⟩ := Patch.copyFields_below hne
      (fun p hp hsource => (hspares p hp hsource).identity) hpatched
    exact (of_ofJson hread (hsorted c.encode_sorted)).2.2.spec ▸ hrefers
  · exact hc.refers

end Resource

/-! ### Applying resources -/

namespace Memory

variable {m after : Memory} {log : List Exchange} {r object c c' : Resource} {key : ObjectKey}
  {form : Json} {references : List Reference}

/-- A resource with a name that is applied is created, or patched if it is there. -/
theorem apply_effect (hnamed : r.metadata.unnamed = false)
    (h : r.apply.Succeeds Obeys m log object after) :
    (object = fresh r ∧ after = m.put r.key (fresh r).encode) ∨
      ∃ form, m.lookup? r.key = some form ∧ ofJson (Ledger.applied r form) = .ok object ∧
        after = m.put r.key (Ledger.applied r form) := by
  unfold Resource.apply at h
  rw [if_neg (by simp [hnamed])] at h
  obtain ⟨object?, middle, early, late, rfl, hget, hrest⟩ := Attempt.succeeds_bind.mp h
  obtain ⟨hreply, rfl⟩ := Program.reaches_ask.mp (Attempt.succeeds_asking.mp hget)
  obtain rfl := (of_get hreply).1
  cases object? with
  | none =>
    obtain ⟨hcreate, rfl⟩ := Program.reaches_ask.mp (Attempt.succeeds_asking.mp hrest)
    obtain ⟨-, hobject, hafter⟩ := of_create hnamed hcreate
    exact .inl ⟨hobject, hafter⟩
  | some stored =>
    obtain ⟨hpatch, rfl⟩ := Program.reaches_ask.mp (Attempt.succeeds_asking.mp hrest)
    exact .inr (of_patch hpatch)

theorem fetchDetails_effect {details : ConnectionDetails}
    (h : r.fetchDetails.Succeeds Obeys m log details after) : after = m := by
  obtain ⟨secret?, middle, early, late, rfl, hsecret, hrest⟩ := Attempt.succeeds_bind.mp h
  obtain ⟨-, -, rfl⟩ := Attempt.succeeds_ofExcept.mp hsecret
  cases secret? with
  | none => exact (Attempt.succeeds_pure.mp hrest).2.2.symm
  | some secret =>
    obtain ⟨stored?, middle', early', late', rfl, hfind, hdecode⟩ := Attempt.succeeds_bind.mp hrest
    obtain ⟨reply, -, hreply, -⟩ := Attempt.succeeds_find.mp hfind
    obtain rfl := (of_get hreply).1
    cases stored? with
    | none => exact (Attempt.succeeds_pure.mp hdecode).2.2.symm
    | some stored => exact (Attempt.succeeds_ofExcept.mp hdecode).2.2.symm

/-- What is stored under a key lies there, and the fields of its spec are in order. -/
def OrderlyAt (key : ObjectKey) (m : Memory) : Prop :=
  ∀ form, m.lookup? key = some form → form.LiesAt key ∧ form.spec.fields.Sorted

theorem OrderlyAt.put (h : m.OrderlyAt key) {other : ObjectKey}
    (hform : other = key → form.LiesAt key ∧ form.spec.fields.Sorted) :
    (m.put other form).OrderlyAt key := by
  intro stored hstored
  rw [lookup?_put] at hstored
  split at hstored
  · next heq =>
    obtain rfl := Option.some.inj hstored
    exact hform heq.symm
  · exact h stored hstored

/-- Patching keeps the fields of a spec in order. -/
theorem sorted_spec_applied (r : Resource) (hform : form.spec.fields.Sorted) :
    (Ledger.applied r form).spec.fields.Sorted := by
  rw [Ledger.applied, Json.spec_versioned, Json.spec, field?_patched form r (by decide)]
  cases r.encode.field? "spec" with
  | none => exact hform
  | some value =>
    cases value with
    | object fields =>
      simp only [Option.getD_some]
      exact Json.sorted_mergePatch hform
    | _ => exact Dict.sorted_nil

/-- Applying a resource keeps the store orderly. -/
theorem OrderlyAt.apply (h : m.OrderlyAt key) (hproper : r.Proper)
    (hsorted : r.spec.fields.Sorted) (hnamed : r.metadata.unnamed = false)
    (hlies : r.key = key → r.LiesAt key) (happly : r.apply.Succeeds Obeys m log object after) :
    after.OrderlyAt key := by
  obtain ⟨-, rfl⟩ | ⟨form, hform, -, rfl⟩ := apply_effect hnamed happly
  · refine h.put fun hkey => ⟨Ledger.liesAt_encode (Ledger.liesAt_fresh (hlies hkey)), ?_⟩
    have hfresh : (fresh r).Proper := hproper.congr rfl rfl
    exact hfresh.standsIn_encode.spec ▸ hsorted
  · refine h.put fun hkey => ?_
    obtain ⟨hlies', hsorted'⟩ := h form (hkey ▸ hform)
    exact ⟨Ledger.liesAt_applied (hlies hkey) hlies', sorted_spec_applied r hsorted'⟩

/-- A composite that is applied refers to what it did, and so does its stored form. -/
theorem RefersAt.apply (h : m.OrderlyAt key) (hc : c.RefersAt key references)
    (hname : key.name ≠ "") (happly : c.apply.Succeeds Obeys m log c' after) :
    c'.RefersAt key references ∧ after.OrderlyAt key ∧
      ∃ form, after.lookup? key = some form ∧ form.RefersAt key references := by
  have hnamed := hc.lies.named hname
  have horderly := h.apply hc.lies.proper hc.refers.sorted hnamed (fun _ => hc.lies) happly
  have hkey := hc.lies.key
  obtain ⟨rfl, rfl⟩ | ⟨form, hform, hread, rfl⟩ := apply_effect hnamed happly
  · have hfresh : (fresh c).RefersAt key references := ⟨Ledger.liesAt_fresh hc.lies, hc.refers⟩
    refine ⟨hfresh, horderly, (fresh c).encode, by rw [lookup?_put, if_pos hkey.symm], ?_⟩
    exact ⟨Ledger.liesAt_encode hfresh.lies, hfresh.lies.proper.standsIn_encode.spec ▸ hfresh.refers⟩
  · obtain ⟨hlies, hsorted⟩ := h form (hkey ▸ hform)
    have hstored : (Ledger.applied c form).RefersAt key references := by
      refine ⟨Ledger.liesAt_applied hc.lies hlies, ?_⟩
      rw [Ledger.applied, Json.spec_versioned]
      exact hc.refers.patched hc.lies.proper hsorted
    exact ⟨hstored.read hread, horderly, _, by rw [lookup?_put, if_pos hkey.symm], hstored⟩

end Memory

/-! ### Carrying out a plan -/

namespace Composition

open Composing Memory

variable {environment : Json} {composite composite' r : Resource} {t : Template}
  {log : List Exchange} {m after : Memory} {key : ObjectKey} {references : List Reference}

/-- A resource that was rendered can be applied at a place of its own, or in place of the
composite. -/
structure Applicable (made : Template × Resource) : Prop where
  /-- It is tidy. -/
  tidy : made.2.Tidy
  /-- It has a name. -/
  named : made.2.metadata.unnamed = false
  /-- The patches of its template spare the composite. -/
  spares : ∀ p ∈ made.1.patches, p.type = .toComposite → p.SparesComposite

theorem settleOne_refers {made : Template × Resource} {settled : ComposedResource × ConnectionDetails}
    (hmade : Applicable made) (hkind : key.kind ≠ "") (hm : m.OrderlyAt key)
    (hc : composite.RefersAt key references)
    (h : (settleOne .standard environment made.1 made.2).Succeeds Obeys composite m log settled
      composite' after) : composite'.RefersAt key references ∧ after.OrderlyAt key := by
  obtain ⟨result, middle, composite₁, early, late, rfl, hrender, hrest⟩ := succeeds_bind.mp h
  cases result with
  | error e => exact absurd hrest succeeds_throw
  | ok composed =>
    obtain ⟨rfl, hpatched, rfl, rfl⟩ := (succeeds_renderComposite environment).mp hrender
    have hrefers := hc.patched hmade.spares hpatched
    obtain ⟨object, _, _, _, _, rfl, hduring, hbody⟩ := succeeds_bind.mp hrest
    obtain ⟨rfl, happly⟩ := succeeds_during.mp hduring
    have horderly := hm.apply hmade.tidy.proper hmade.tidy.spec.sorted hmade.named
      (fun heq => heq ▸ liesAt_key hmade.tidy.proper hmade.named (heq ▸ hkind)) happly
    -- What comes after the resource was applied only reads.
    obtain ⟨fetched, _, _, _, _, rfl, hfetch, hrest₁⟩ := succeeds_bind.mp hbody
    obtain ⟨rfl, hfetched⟩ := succeeds_during.mp hfetch
    obtain rfl := fetchDetails_effect hfetched
    obtain ⟨details, _, _, _, _, rfl, hextract, hrest₂⟩ := succeeds_bind.mp hrest₁
    obtain ⟨rfl, hextracted⟩ := succeeds_during.mp hextract
    obtain ⟨-, -, rfl⟩ := Attempt.succeeds_ofExcept.mp hextracted
    obtain ⟨ready, _, _, _, _, rfl, hcheck, hend⟩ := succeeds_bind.mp hrest₂
    obtain ⟨rfl, hchecked⟩ := succeeds_during.mp hcheck
    obtain ⟨-, -, rfl⟩ := Attempt.succeeds_ofExcept.mp hchecked
    obtain ⟨-, rfl, -, rfl⟩ := succeeds_pure.mp hend
    exact ⟨hrefers, horderly⟩

theorem settleAll_refers {made : List (Template × Resource)}
    {settled : List (ComposedResource × ConnectionDetails)}
    (hmade : ∀ one ∈ made, Applicable one) (hkind : key.kind ≠ "") (hm : m.OrderlyAt key)
    (hc : composite.RefersAt key references)
    (h : (settleAll .standard environment made).Succeeds Obeys composite m log settled composite'
      after) : composite'.RefersAt key references ∧ after.OrderlyAt key := by
  induction made generalizing m after log settled composite composite' with
  | nil =>
    obtain ⟨-, rfl, -, rfl⟩ := succeeds_pure.mp h
    exact ⟨hc, hm⟩
  | cons first rest ih =>
    obtain ⟨hfirst, hothers⟩ := List.forall_mem_cons.mp hmade
    obtain ⟨one, _, _, _, _, rfl, hone, hrest⟩ := succeeds_bind.mp h
    obtain ⟨hc₁, hm₁⟩ := settleOne_refers hfirst hkind hm hc hone
    obtain ⟨others, _, _, _, _, rfl, hall, hend⟩ := succeeds_bind.mp hrest
    obtain ⟨hc₂, hm₂⟩ := ih hothers hm₁ hc₁ hall
    obtain ⟨-, rfl, -, rfl⟩ := succeeds_pure.mp hend
    exact ⟨hc₂, hm₂⟩

theorem persistReferences_refers (hname : key.name ≠ "") (hm : m.OrderlyAt key)
    (hc : composite.LiesAt key) (hsorted : composite.spec.fields.Sorted)
    (h : (persistReferences references).Succeeds Obeys composite m log () composite' after) :
    composite'.RefersAt key references ∧ after.OrderlyAt key := by
  obtain ⟨referring, hrefs, happly⟩ := succeeds_persistReferences h
  obtain ⟨hc', hm', -⟩ := RefersAt.apply hm
    ⟨hc.setResourceRefs hrefs, refers_of_setResourceRefs hsorted hrefs⟩ hname happly
  exact ⟨hc', hm'⟩

theorem persistComposite_refers (hname : key.name ≠ "") (hm : m.OrderlyAt key)
    (hc : composite.RefersAt key references)
    (h : persistComposite.Succeeds Obeys composite m log () composite' after) :
    composite'.RefersAt key references := by
  obtain ⟨written, _, _, _, rfl, happly, hstatus⟩ := succeeds_persistComposite h
  obtain ⟨hwritten, -, form, hform, hrefers⟩ := RefersAt.apply hm hc hname happly
  obtain ⟨rfl, -⟩ | ⟨status, -, -, hpatch⟩ := hstatus
  · exact hwritten
  · -- The status is patched in the form that was just stored.
    obtain ⟨form', hform', hread, -⟩ := of_patchStatus hpatch
    rw [hwritten.lies.key, hform] at hform'
    obtain rfl := Option.some.inj hform'
    have hpatched : (versioned (form.mergePatch
        (statusOnly (.object [("status", status)])))).RefersAt key references := by
      refine ⟨Ledger.liesAt_statusOnly _ hrefers.lies, ?_⟩
      rw [Json.spec_versioned, Json.spec_statusOnly]
      exact hrefers.refers
    exact hpatched.read hread

/-- When a plan was carried out, the composite refers to what the plan keeps. -/
theorem carryOut_refers {renditions : List (Association × Rendition)} {outcome : Outcome}
    (hmade : ∀ made ∈ renderedOnly renditions, Applicable made) (hkind : key.kind ≠ "")
    (hname : key.name ≠ "") (hm : m.OrderlyAt key) (hc : composite.LiesAt key)
    (hsorted : composite.spec.fields.Sorted)
    (h : (carryOut .standard environment renditions).Succeeds Obeys composite m log outcome
      composite' after) :
    composite'.RefersAt key (renditions.filterMap keptReference) := by
  obtain ⟨_, _, _, _, _, _, _, _, rfl, hfirst, hsettle, hlast, -⟩ := succeeds_carryOut h
  obtain ⟨hc₁, hm₁⟩ := persistReferences_refers hname hm hc hsorted hfirst
  obtain ⟨hc₂, hm₂⟩ := settleAll_refers hmade hkind hm₁ hc₁ hsettle
  exact persistComposite_refers hname hm₂ hc₂ hlast

end Composition

end ResourceComposition
