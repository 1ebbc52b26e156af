import ResourceComposition.Proofs.Filing
import ResourceComposition.Proofs.Persistence

/-!
# A composite that stays where it is

A composition leaves its composite where its collaborators take it: the templates may patch its
name, and then what is written in the end is another object. If the composite has a name, and the
patches leave alone what tells it from others, then it lies under the same key in the end
(`Composition.StaysPut.key_eq`). The store may refuse any call.
-/

namespace ResourceComposition

open Resource

/-- A resource has a key, and its body leaves the header to its place. -/
structure Resource.StandsAt (key : ObjectKey) (r : Resource) : Prop where
  /-- The key. -/
  key : r.key = key
  /-- The body leaves the header to its place. -/
  proper : r.Proper

namespace Memory

variable {m after : Memory} {log : List Exchange} {key : ObjectKey} {form : Json} {c r : Resource}

/-- What is read where it belongs stands there. -/
theorem Filed.standsAt (hm : m.Filed) (hform : m.lookup? key = some form)
    (hread : ofJson form = .ok r) : r.StandsAt key := by
  obtain ⟨hordered, r', hread', hkey⟩ := hm.lookup? hform
  obtain rfl := Except.ok.inj (hread'.symm.trans hread)
  exact ⟨hkey, (of_ofJson hread hordered.sorted).2.1⟩

/-- What was applied under a name stands where it was applied. -/
theorem standsAt_of_apply (hname : key.name ≠ "") (hm : m.Filed) (hc : c.StandsAt key)
    (h : c.apply.Succeeds Filing m log r after) : r.StandsAt key := by
  have hnamed : c.metadata.unnamed = false := Identity.unnamed_of_key (by rwa [hc.key])
  obtain ⟨rfl, -⟩ | ⟨form, -, hread, hafter⟩ :=
    apply_effect hnamed (h.mono fun _ _ _ _ => Filing.obeys)
  · exact ⟨hc.key, hc.proper.congr rfl rfl⟩
  · rw [hc.key] at hafter
    have hstored : after.lookup? key = some (Ledger.applied c form) := by
      rw [hafter, lookup?_put, if_pos rfl]
    exact (filed_of_reaches hm h).standsAt hstored hread

end Memory

namespace Composition

open Composing Memory

variable {request : CompositionRequest} {environment : Json} {composite composite' : Resource}
  {m after : Memory} {log : List Exchange} {key : ObjectKey} {outcome : Outcome}

/-- A composite that a composition leaves where it is. -/
structure StaysPut (request : CompositionRequest) (composite : Resource) : Prop where
  /-- Its body leaves the header to its place. -/
  proper : composite.Proper
  /-- It has a name. -/
  named : composite.key.name ≠ ""
  /-- No patch to it writes to its type, its name or its namespace. -/
  spares : ∀ templates, request.revision.inlinedTemplates = .ok templates →
    ∀ t ∈ templates, ∀ p ∈ t.patches, p.type = .toComposite → p.SparesIdentity

theorem standsAt_of_persistReferences {references : List Reference} (hname : key.name ≠ "")
    (hm : m.Filed) (hc : composite.StandsAt key)
    (h : (persistReferences references).Succeeds Filing composite m log () composite' after) :
    composite'.StandsAt key := by
  obtain ⟨referring, hrefs, happly⟩ := succeeds_persistReferences h
  refine standsAt_of_apply hname hm ?_ happly
  obtain ⟨fields, -, rfl⟩ := (setField_eq_ok parse_referencesPath).mp hrefs
  exact ⟨hc.key, hc.proper.insert (by simp [headerNames])⟩

theorem standsAt_of_persistComposite (hname : key.name ≠ "") (hm : m.Filed)
    (hc : composite.StandsAt key)
    (h : persistComposite.Succeeds Filing composite m log () composite' after) :
    composite'.StandsAt key := by
  obtain ⟨written, middle, _, _, rfl, happly, hstatus⟩ := succeeds_persistComposite h
  have hwritten := standsAt_of_apply hname hm hc happly
  obtain ⟨rfl, -⟩ | ⟨status, -, -, hpatch⟩ := hstatus
  · exact hwritten
  · obtain ⟨form, -, hread, hafter⟩ := of_patchStatus hpatch.obeys
    have hstored := hafter ▸ (lookup?_put ..).trans (if_pos rfl)
    rw [← hwritten.key]
    exact (hpatch.filed (filed_of_reaches hm happly)).standsAt hstored hread

/-- A composite that stays put lies under its own key after a composition that succeeds. -/
theorem StaysPut.key_eq (hm : m.Filed) (hput : StaysPut request composite)
    (h : (compose .standard request).Succeeds Filing composite m log outcome composite' after) :
    composite'.key = composite.key := by
  obtain ⟨renditions, planning, acting, planned, rfl, hplan, hcarry⟩ := compose_succeeds.mp h
  obtain ⟨-, hplanned⟩ := plan_planned hplan
  obtain ⟨_, _, _, _, _, _, _, _, rfl, hfirst, hsettle, hlast, -⟩ := succeeds_carryOut hcarry
  have hfiled := filed_of_reaches hm hplan
  have hc₁ := standsAt_of_persistReferences hput.named hfiled ⟨rfl, hput.proper⟩ hfirst
  have hpatch (made : Template × Resource) (hmade : made ∈ renderedOnly renditions) (c c' : Resource)
      (hpatched : Patch.applyToComposite made.1.patches made.2 c = .ok c')
      (hc : c.StandsAt composite.key) : c'.StandsAt composite.key := by
    obtain ⟨a, hrendered, htemplate⟩ := mem_renderedOnly.mp hmade
    have hsame := Patch.applyTo_identity (fun p hp hsource => ?_) hc.proper hpatched
    · exact ⟨hsame.key.trans hc.key, hsame.proper⟩
    · refine hput.spares _ hplanned.templates made.1 ?_ p hp ?_
      · exact htemplate ▸ List.mem_map_of_mem hrendered
      · cases hptype : p.type <;> simp [Patch.compositeSource, hptype] at hsource ⊢
  have hc₂ := (settleAll_settled hpatch hsettle).2 hc₁
  have hsettled := filed_of_reaches (filed_of_reaches hfiled hfirst) hsettle
  exact (standsAt_of_persistComposite hput.named hsettled hc₂ hlast).key

end Composition

end ResourceComposition
