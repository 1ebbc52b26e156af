import ResourceComposition.Composition.Basic
import ResourceComposition.Proofs.Ledger

/-!
# Applying resources in a store

Applying a resource makes two calls: whether the resource is there is read first, and then it is
created or patched. What settling a resource does besides only reads.
-/

namespace ResourceComposition.Ledger

open Resource

variable {s : Ledger} {r : Resource} {allowed : Call → Ledger → Prop}

/-- The form that is stored when a resource is applied to a stored form. -/
def applied (r : Resource) (form : Json) : Json :=
  Memory.versioned (form.mergePatch (Memory.withoutStatus r.encode))

/-- A resource is created or patched, as it is there or not. It has a name, or it is there and the
server does not make up a name for it. -/
theorem apply_keeps {ok : Resource → Ledger → Prop} {failed : Ledger → Prop}
    (hnamed : r.metadata.unnamed = true → r.metadata.generateName = none ∧ s.lookup? r.key ≠ none)
    (hget : allowed (.get r.reference) s) (hrefused : failed s)
    (hcreate : s.lookup? r.key = none → allowed (.create r false) s ∧
      ok (Memory.fresh r) (s.put r.key (Memory.fresh r).encode))
    (hpatch : ∀ form, s.lookup? r.key = some form → allowed (.patch r r.encode) s ∧
      failed (s.put r.key (applied r form)) ∧ ∀ stored, ofJson (applied r form) = .ok stored →
        ok stored (s.put r.key (applied r form))) :
    r.apply.Keeps Serves allowed ok failed s := by
  unfold Resource.apply
  rw [if_neg fun h => by simp [(hnamed h.1).1] at h]
  refine Attempt.keeps_bind.mpr (Attempt.keeps_asking.mpr ⟨hget, ?_⟩)
  intro reply after hreply
  obtain ⟨rfl, ⟨e, rfl, -⟩ | ⟨rfl, hlookup⟩ | ⟨form, stored, rfl, hlookup, -⟩⟩ := of_get hreply
  · exact hrefused
  · obtain ⟨hallowed, hok⟩ := hcreate hlookup
    have hnamed : r.metadata.unnamed = false :=
      Bool.eq_false_iff.mpr fun h => (hnamed h).2 hlookup
    refine Attempt.keeps_asking.mpr ⟨hallowed, fun reply after hreply => ?_⟩
    obtain ⟨rfl, e, rfl⟩ | ⟨-, rfl, rfl⟩ := of_create hnamed hreply
    · exact hrefused
    · exact hok
  · obtain ⟨hallowed, hfailed, hok⟩ := hpatch form hlookup
    refine Attempt.keeps_asking.mpr ⟨hallowed, fun reply after hreply => ?_⟩
    obtain ⟨rfl, e, rfl⟩ | ⟨form', hlookup', rfl, rfl⟩ := of_patch hreply
    · exact hrefused
    · obtain rfl := Option.some.inj (hlookup.symm.trans hlookup')
      cases hread : ofJson (applied r form) with
      | error e => rw [show Memory.versioned _ = applied r form from rfl, hread]; exact hfailed
      | ok stored => rw [show Memory.versioned _ = applied r form from rfl, hread]; exact hok _ hread

theorem fetchDetails_keeps (hallowed : ∀ reference, allowed (.get reference) s) :
    r.fetchDetails.Keeps Serves allowed (fun _ after => after = s) (fun after => after = s) s := by
  refine Attempt.keeps_bind.mpr (Attempt.keeps_ofExcept.mpr ?_)
  cases r.secretReference?.mapError (CompositionError.resource r.nameAny) with
  | error e => rfl
  | ok secret? =>
    cases secret? with
    | none => exact Attempt.keeps_pure.mpr rfl
    | some secret =>
      refine Attempt.keeps_bind.mpr (find_keeps (hallowed _) rfl
        (fun _ => Attempt.keeps_pure.mpr rfl) fun form stored _ _ => Attempt.keeps_ofExcept.mpr ?_)
      cases (Secret.decodeDetails stored.encode).mapError _ <;> rfl

/-- Once a rendered resource is applied, the rest of settling it only reads. -/
theorem settleOne_of_apply {t : Template} {environment : Json} {composite : Resource}
    {ok : Resource → Ledger → Prop} {failed : Ledger → Prop}
    (hget : ∀ reference c after, ok c after → allowed (.get reference) after)
    (hok : ∀ c after, ok c after → failed after) (hfailed : failed s)
    (happly : ∀ c, Patch.applyToComposite t.patches r composite = .ok c →
      r.apply.Keeps Serves allowed (fun _ => ok c) failed s) :
    (Composition.settleOne .standard environment t r).Keeps Serves allowed (fun _ => ok) failed
      composite s := by
  refine Composing.keeps_bind.mpr (Composing.keeps_renderComposite environment (fun c hc => ?_)
    fun e => Composing.keeps_throw.mpr hfailed)
  refine Composing.keeps_bind.mpr (Composing.keeps_during.mpr ((happly c hc).mono
    (fun object after hafter => ?_) fun _ => id))
  refine Composing.keeps_bind.mpr (Composing.keeps_during.mpr ((fetchDetails_keeps
    fun reference => hget reference c after hafter).mono ?_ fun _ heq => heq ▸ hok c after hafter))
  rintro fetched _ rfl
  refine Composing.keeps_bind.mpr (Composing.keeps_during.mpr (Attempt.keeps_ofExcept.mpr ?_))
  cases Collaborators.standard.extractDetails object fetched t.connectionDetails with
  | error e => exact hok c _ hafter
  | ok details =>
    refine Composing.keeps_bind.mpr (Composing.keeps_during.mpr (Attempt.keeps_ofExcept.mpr ?_))
    cases Collaborators.standard.checkReadiness object t.readinessChecks with
    | error e => exact hok c _ hafter
    | ok ready => exact Composing.keeps_pure.mpr hafter

end ResourceComposition.Ledger
