import ResourceComposition.Proofs.Custody
import ResourceComposition.Proofs.Publication
import ResourceComposition.Proofs.Readiness
import ResourceComposition.Proofs.Underway

/-!
# How a pass comes to change what is there

A pass of reconciliation changes objects that are there by a patch, by a patch of the status, or by
an update. `Composition.Route` lists all the ways in which it comes to do so, each with the steps
that were made before: the composite is given its references; a rendered resource is applied; the
composite is written as the templates patched it, and its status after that; the secret with the
connection details is replaced; the condition of the composite is reported.

That there are no others, and that the pass gets to each of these, holds in every world and for
every revision (`Composition.reconcile_changes_iff`). Where a pass may do harm can be read off the
list, with no look at the programs.
-/

namespace ResourceComposition

namespace Composition

open Composing Ledger

variable {σ : Type} {world : World σ} {s last : σ} {log : List Exchange} {call : Call}
  {composite c r object : Resource} {environment : Json} {request : CompositionRequest}
  {now : Instant} {defaultNamespace : Option String}

/-- A program that makes no calls of a kind that changes anything is not about to change anything.
-/
theorem unchanged_of_always {α : Type} {allowed : Call → Prop} {p : Program α}
    (hp : p.Always allowed) (hallowed : ∀ call, allowed call → changed? call = none) :
    ¬ (p.Calls world s log call last ∧ changed? call = some object) := by
  rintro ⟨hcalls, hchanges⟩
  rw [hallowed call (hp.of_calls hcalls)] at hchanges
  cases hchanges

theorem unchanged_of_ask {first : Call} (h : changed? first = none) :
    ¬ ((Program.ask first).Calls world s log call last ∧ changed? call = some object) := by
  rintro ⟨hcalls, hchanges⟩
  obtain ⟨rfl, -⟩ := Program.calls_ask.mp hcalls
  rw [h] at hchanges
  cases hchanges

theorem changed?_of_plans (call : Call) (h : call.Plans) : changed? call = none := by
  cases call <;> first | rfl | exact h.elim

/-! ### Applying -/

/-- A resource that is applied was found in the store. -/
structure Finds (world : World σ) (r : Resource) (s : σ) (log : List Exchange) (last : σ) : Prop where
  /-- It is not one that is always created. -/
  named : ¬ (r.metadata.unnamed = true ∧ r.metadata.generateName.isSome = true)
  /-- The store was asked for it, and had it. -/
  found : ∃ stored, log = [⟨.get r.reference, .ok (some stored)⟩] ∧
    world (.get r.reference) s (.ok (some stored)) last

theorem apply_changes_iff :
    (r.apply.Calls world s log call last ∧ changed? call = some object) ↔
      Finds world r s log last ∧ call = .patch r r.encode ∧ object = r := by
  have hcreates {s : σ} {log : List Exchange} :
      ¬ (r.createStored.Calls world s log call last ∧ changed? call = some object) := by
    rintro ⟨hcalls, hchanges⟩
    exact absurd ⟨Attempt.calls_asking.mp hcalls, hchanges⟩ (unchanged_of_ask rfl)
  unfold Resource.apply
  split
  · next hnameless => exact iff_of_false hcreates fun h => h.1.named hnameless
  · next hnamed =>
    constructor
    · rintro ⟨hcalls, hchanges⟩
      obtain hget | ⟨stored?, middle, early, late, rfl, hget, hrest⟩ := Attempt.calls_bind.mp hcalls
      · exact absurd ⟨Attempt.calls_asking.mp hget, hchanges⟩ (unchanged_of_ask rfl)
      · obtain ⟨hfound, rfl⟩ := Program.reaches_ask.mp (Attempt.succeeds_asking.mp hget)
        cases stored? with
        | none => exact absurd ⟨hrest, hchanges⟩ hcreates
        | some stored =>
          obtain ⟨rfl, rfl, rfl⟩ := Program.calls_ask.mp (Attempt.calls_asking.mp hrest)
          exact ⟨⟨hnamed, stored, rfl, hfound⟩, rfl, (Option.some.inj hchanges).symm⟩
    · rintro ⟨⟨-, stored, rfl, hfound⟩, rfl, rfl⟩
      have hget : (Attempt.asking (Attempt.get object.reference) (.store .get)).Succeeds world s
          [⟨.get object.reference, .ok (some stored)⟩] (some stored) last :=
        Attempt.succeeds_asking.mpr (Program.reaches_ask.mpr ⟨hfound, rfl⟩)
      refine ⟨Attempt.calls_bind.mpr (.inr ⟨some stored, last, _, [], rfl, hget, ?_⟩), rfl⟩
      exact Attempt.calls_asking.mpr (Program.calls_ask.mpr ⟨rfl, rfl, rfl⟩)

theorem applyComposite_changes_iff :
    (applyComposite.Calls world c s log call last ∧ changed? call = some object) ↔
      Finds world c s log last ∧ call = .patch c c.encode ∧ object = c := by
  rw [← apply_changes_iff, applyComposite, calls_get_bind, calls_bind, calls_during]
  refine and_congr_left' (or_iff_left ?_)
  rintro ⟨stored, _, _, _, _, -, -, hset⟩
  exact calls_setComposite hset

theorem persistReferences_changes_iff {references : List Reference} :
    ((persistReferences references).Calls world c s log call last ∧ changed? call = some object) ↔
      ∃ referring, c.setResourceRefs references = .ok referring ∧
        Finds world referring s log last ∧ call = .patch referring referring.encode ∧
        object = referring := by
  constructor
  · rintro ⟨hcalls, hchanges⟩
    obtain hnone | ⟨referring, _, _, _, _, rfl, hduring, hrest⟩ :=
      calls_bind.mp (calls_get_bind.mp hcalls)
    · exact absurd (calls_during.mp hnone) Attempt.calls_ofExcept
    · obtain ⟨rfl, hreferring⟩ := succeeds_during.mp hduring
      obtain ⟨hrefs, rfl, rfl⟩ := Attempt.succeeds_ofExcept.mp hreferring
      obtain hnone | ⟨_, _, _, _, _, rfl, hstore, happly⟩ := calls_bind.mp hrest
      · exact absurd hnone calls_setComposite
      · obtain ⟨rfl, rfl, rfl⟩ := succeeds_setComposite.mp hstore
        exact ⟨_, Except.mapError_eq_ok.mp hrefs, applyComposite_changes_iff.mp ⟨happly, hchanges⟩⟩
  · rintro ⟨referring, hrefs, happly⟩
    obtain ⟨hcalls, hchanges⟩ := applyComposite_changes_iff.mpr happly
    refine ⟨calls_get_bind.mpr (calls_bind.mpr (.inr ⟨referring, s, c, [], log, rfl, ?_, ?_⟩)),
      hchanges⟩
    · exact succeeds_during.mpr
        ⟨rfl, Attempt.succeeds_ofExcept.mpr ⟨Except.mapError_eq_ok.mpr hrefs, rfl, rfl⟩⟩
    · exact calls_bind.mpr (.inr ⟨(), s, referring, [], log, rfl,
        succeeds_setComposite.mpr ⟨rfl, rfl, rfl⟩, hcalls⟩)

/-! ### Settling what was rendered -/

theorem settleOne_changes_iff {t : Template} :
    ((settleOne .standard environment t r).Calls world c s log call last ∧
        changed? call = some object) ↔
      ∃ c', Patch.applyToComposite t.patches r c = .ok c' ∧ Finds world r s log last ∧
        call = .patch r r.encode ∧ object = r := by
  constructor
  · rintro ⟨hcalls, hchanges⟩
    obtain hnone | ⟨result, _, c', _, _, rfl, hrender, hrest⟩ := calls_bind.mp hcalls
    · exact absurd hnone (calls_renderComposite t environment r)
    · cases result with
      | error e => exact absurd hrest calls_throw
      | ok composed =>
        obtain ⟨rfl, hpatched, rfl, rfl⟩ := (succeeds_renderComposite environment).mp hrender
        obtain happly | ⟨applied, _, _, _, _, rfl, -, hbody⟩ := calls_bind.mp hrest
        · exact ⟨c', hpatched, apply_changes_iff.mp ⟨calls_during.mp happly, hchanges⟩⟩
        · -- What comes after the resource was applied only reads.
          have hreads : Composing.Always (fun call => changed? call = none) (do
              let fetched ← Composing.during .fetchDetails (Collaborators.standard.fetchDetails applied)
              let details ← Composing.during .extractDetails
                (.ofExcept (Collaborators.standard.extractDetails applied fetched t.connectionDetails))
              let ready ← Composing.during .readiness
                (.ofExcept (Collaborators.standard.checkReadiness applied t.readinessChecks))
              return ((⟨t.name.getD "", applied, ready⟩ : ComposedResource), details)) :=
            (always_during (applied.fetchDetails_always fun _ => rfl)).bind fun _ =>
              (always_during (Attempt.always_ofExcept _)).bind fun _ =>
                (always_during (Attempt.always_ofExcept _)).bind fun _ => always_pure _
          exact absurd ⟨hbody, hchanges⟩ (unchanged_of_always (hreads _) fun _ => id)
  · rintro ⟨c', hpatched, happly⟩
    obtain ⟨hcalls, hchanges⟩ := apply_changes_iff.mpr happly
    refine ⟨calls_bind.mpr (.inr ⟨.ok r, s, c', [], log, rfl, ?_, ?_⟩), hchanges⟩
    · exact (succeeds_renderComposite environment).mpr ⟨rfl, hpatched, rfl, rfl⟩
    · exact calls_bind.mpr (.inl (calls_during.mpr hcalls))

/-- Of all rendered resources, those before the one that is changed were settled. -/
theorem settleAll_changes_iff {made : List (Template × Resource)} :
    ((settleAll .standard environment made).Calls world c s log call last ∧
        changed? call = some object) ↔
      ∃ before t r rest settled settling finding c₁ middle c₂, made = before ++ (t, r) :: rest ∧
        log = settling ++ finding ∧
        (settleAll .standard environment before).Succeeds world c s settling settled c₁ middle ∧
        Patch.applyToComposite t.patches r c₁ = .ok c₂ ∧ Finds world r middle finding last ∧
        call = .patch r r.encode ∧ object = r := by
  induction made generalizing c s log with
  | nil =>
    refine iff_of_false (fun h => calls_pure h.1) ?_
    rintro ⟨before, _, _, _, _, _, _, _, _, _, hnil, -⟩
    cases before <;> cases hnil
  | cons first others ih =>
    constructor
    · rintro ⟨hcalls, hchanges⟩
      obtain hone | ⟨one, middle, c₁, early, _, rfl, hone, hrest⟩ := calls_bind.mp hcalls
      · obtain ⟨c', hpatched, hfinds⟩ := settleOne_changes_iff.mp ⟨hone, hchanges⟩
        exact ⟨[], first.1, first.2, others, [], [], log, c, s, c', rfl, rfl,
          succeeds_pure.mpr ⟨rfl, rfl, rfl, rfl⟩, hpatched, hfinds⟩
      · obtain hall | ⟨_, _, _, _, _, _, -, hpure⟩ := calls_bind.mp hrest
        · obtain ⟨before, t, r, rest, settled, settling, finding, c₂, middle', c₃, rfl, rfl, hsettle,
            hfinds⟩ := ih.mp ⟨hall, hchanges⟩
          refine ⟨first :: before, t, r, rest, one :: settled, early ++ settling, finding, c₂, middle',
            c₃, rfl, (List.append_assoc ..).symm, ?_, hfinds⟩
          exact succeeds_bind.mpr ⟨one, middle, c₁, early, settling, rfl, hone, succeeds_bind.mpr
            ⟨settled, middle', c₂, settling, [], (List.append_nil _).symm, hsettle,
              succeeds_pure.mpr ⟨rfl, rfl, rfl, rfl⟩⟩⟩
        · exact absurd hpure calls_pure
    · rintro ⟨before, t, r, rest, settled, settling, finding, c₁, middle, c₂, hmade, rfl, hsettle,
        hpatched, hfinds⟩
      cases before with
      | nil =>
        obtain ⟨rfl, rfl⟩ := List.cons.inj hmade
        obtain ⟨-, rfl, rfl, rfl⟩ := succeeds_pure.mp hsettle
        obtain ⟨hcalls, hchanges⟩ := settleOne_changes_iff.mpr ⟨c₂, hpatched, hfinds⟩
        exact ⟨calls_bind.mpr (.inl hcalls), hchanges⟩
      | cons one before =>
        obtain ⟨rfl, rfl⟩ := List.cons.inj hmade
        obtain ⟨entry, middle', c', early, late, rfl, hone, hbody⟩ := succeeds_bind.mp hsettle
        obtain ⟨entries, _, _, _, _, rfl, hall, hpure⟩ := succeeds_bind.mp hbody
        obtain ⟨-, rfl, rfl, rfl⟩ := succeeds_pure.mp hpure
        rw [List.append_nil, List.append_assoc]
        obtain ⟨hcalls, hchanges⟩ := ih.mpr ⟨before, t, r, rest, entries, _, finding, _, _, c₂, rfl,
          rfl, hall, hpatched, hfinds⟩
        exact ⟨calls_bind.mpr (.inr ⟨entry, middle', c', early, _, rfl, hone,
          calls_bind.mpr (.inl hcalls)⟩), hchanges⟩

/-! ### Writing the composite in the end -/

theorem persistComposite_changes_iff :
    (persistComposite.Calls world c s log call last ∧ changed? call = some object) ↔
      (Finds world c s log last ∧ call = .patch c c.encode ∧ object = c) ∨
        ∃ stored status, applyComposite.Succeeds world c s log () stored last ∧
          c.body.get? "status" = some status ∧
          (stored.body.get? "status").any (·.sameValue status) = false ∧
          call = .patchStatus stored (.object [("status", status)]) ∧ object = stored := by
  constructor
  · rintro ⟨hcalls, hchanges⟩
    obtain happly | ⟨_, middle, stored, early, late, rfl, happly, hrest⟩ :=
      calls_bind.mp (calls_get_bind.mp hcalls)
    · exact .inl (applyComposite_changes_iff.mp ⟨happly, hchanges⟩)
    · split at hrest
      · exact absurd hrest calls_pure
      · next status hstatus =>
        have hrest := calls_get_bind.mp hrest
        split at hrest
        · exact absurd hrest calls_pure
        · next hother =>
          obtain hpatch | ⟨_, _, _, _, _, rfl, -, hset⟩ := calls_bind.mp hrest
          · obtain ⟨rfl, rfl, rfl⟩ :=
              Program.calls_ask.mp (Attempt.calls_asking.mp (calls_during.mp hpatch))
            refine .inr ⟨stored, status, ?_, hstatus, by simpa using hother, rfl,
              (Option.some.inj hchanges).symm⟩
            rwa [List.append_nil]
          · exact absurd hset calls_setComposite
  · rintro (happly | ⟨stored, status, happly, hstatus, hother, rfl, rfl⟩)
    · obtain ⟨hcalls, hchanges⟩ := applyComposite_changes_iff.mpr happly
      exact ⟨calls_get_bind.mpr (calls_bind.mpr (.inl hcalls)), hchanges⟩
    · refine ⟨calls_get_bind.mpr (calls_bind.mpr (.inr ⟨(), last, object, log, [],
        (List.append_nil _).symm, happly, ?_⟩)), rfl⟩
      simp only [hstatus]
      refine calls_get_bind.mpr ?_
      rw [if_neg (by simp [hother])]
      exact calls_bind.mpr (.inl (calls_during.mpr (Attempt.calls_asking.mpr
        (Program.calls_ask.mpr ⟨rfl, rfl, rfl⟩))))

/-! ### Carrying out a plan -/

/-- The ways in which carrying out a plan changes an object that is there: the exchanges before, the
call, the object, and the state then. -/
inductive Overwrites (world : World σ) (environment : Json)
    (renditions : List (Association × Rendition)) (composite : Resource) (s : σ) :
    List Exchange → Call → Resource → σ → Prop where
  /-- The composite is given the references to what was rendered. -/
  | referring {c : Resource} {finding : List Exchange} {last : σ}
      (hrefs : composite.setResourceRefs (renditions.filterMap keptReference) = .ok c)
      (hfinds : Finds world c s finding last) :
      Overwrites world environment renditions composite s finding (.patch c c.encode) c last
  /-- A rendered resource is applied, after those before it. -/
  | rendered {written c c' r : Resource} {t : Template} {before rest : List (Template × Resource)}
      {settled : List (ComposedResource × ConnectionDetails)}
      {persisting settling finding : List Exchange} {persisted middle last : σ}
      (hpersist : (persistReferences (renditions.filterMap keptReference)).Succeeds world composite s
        persisting () written persisted)
      (hmade : renderedOnly renditions = before ++ (t, r) :: rest)
      (hsettle : (settleAll .standard environment before).Succeeds world written persisted settling
        settled c middle)
      (hpatched : Patch.applyToComposite t.patches r c = .ok c')
      (hfinds : Finds world r middle finding last) :
      Overwrites world environment renditions composite s (persisting ++ (settling ++ finding))
        (.patch r r.encode) r last
  /-- The composite is written as the templates patched it. -/
  | patched {written c : Resource} {settled : List (ComposedResource × ConnectionDetails)}
      {persisting settling finding : List Exchange} {persisted middle last : σ}
      (hpersist : (persistReferences (renditions.filterMap keptReference)).Succeeds world composite s
        persisting () written persisted)
      (hsettle : (settleAll .standard environment (renderedOnly renditions)).Succeeds world written
        persisted settling settled c middle)
      (hfinds : Finds world c middle finding last) :
      Overwrites world environment renditions composite s (persisting ++ (settling ++ finding))
        (.patch c c.encode) c last
  /-- Its status is written to what the store made of it. -/
  | status {written c stored : Resource} {settled : List (ComposedResource × ConnectionDetails)}
      {status : Json} {persisting settling applying : List Exchange} {persisted middle last : σ}
      (hpersist : (persistReferences (renditions.filterMap keptReference)).Succeeds world composite s
        persisting () written persisted)
      (hsettle : (settleAll .standard environment (renderedOnly renditions)).Succeeds world written
        persisted settling settled c middle)
      (happly : applyComposite.Succeeds world c middle applying () stored last)
      (hstatus : c.body.get? "status" = some status)
      (hother : (stored.body.get? "status").any (·.sameValue status) = false) :
      Overwrites world environment renditions composite s (persisting ++ (settling ++ applying))
        (.patchStatus stored (.object [("status", status)])) stored last

variable {renditions : List (Association × Rendition)}

theorem carryOut_changes_iff :
    ((carryOut .standard environment renditions).Calls world composite s log call last ∧
        changed? call = some object) ↔
      Overwrites world environment renditions composite s log call object last := by
  constructor
  · rintro ⟨hcalls, hchanges⟩
    obtain hrefs | ⟨_, persisted, written, persisting, _, rfl, hpersist, hrest⟩ :=
      calls_bind.mp hcalls
    · obtain ⟨c, hset, hfinds, rfl, rfl⟩ := persistReferences_changes_iff.mp ⟨hrefs, hchanges⟩
      exact .referring hset hfinds
    obtain hsettling | ⟨settled, middle, c, settling, _, rfl, hsettle, hrest⟩ := calls_bind.mp hrest
    · obtain ⟨before, t, r, rest, settled, settling, finding, c₁, middle, c₂, hmade, rfl, hsettle,
        hpatched, hfinds, rfl, rfl⟩ := settleAll_changes_iff.mp ⟨hsettling, hchanges⟩
      exact .rendered hpersist hmade hsettle hpatched hfinds
    obtain hlast | ⟨_, _, _, _, _, _, -, hpure⟩ := calls_bind.mp hrest
    · obtain ⟨hfinds, rfl, rfl⟩ | ⟨stored, status, happly, hstatus, hother, rfl, rfl⟩ :=
        persistComposite_changes_iff.mp ⟨hlast, hchanges⟩
      · exact .patched hpersist hsettle hfinds
      · exact .status hpersist hsettle happly hstatus hother
    · exact absurd hpure calls_pure
  · intro h
    cases h with
    | referring hset hfinds =>
      obtain ⟨hcalls, hchanges⟩ :=
        persistReferences_changes_iff.mpr ⟨_, hset, hfinds, rfl, rfl⟩
      exact ⟨calls_bind.mpr (.inl hcalls), hchanges⟩
    | rendered hpersist hmade hsettle hpatched hfinds =>
      obtain ⟨hcalls, hchanges⟩ := settleAll_changes_iff.mpr
        ⟨_, _, _, _, _, _, _, _, _, _, hmade, rfl, hsettle, hpatched, hfinds, rfl, rfl⟩
      exact ⟨calls_bind.mpr (.inr ⟨_, _, _, _, _, rfl, hpersist,
        calls_bind.mpr (.inl hcalls)⟩), hchanges⟩
    | patched hpersist hsettle hfinds =>
      obtain ⟨hcalls, hchanges⟩ := persistComposite_changes_iff.mpr (.inl ⟨hfinds, rfl, rfl⟩)
      exact ⟨calls_bind.mpr (.inr ⟨_, _, _, _, _, rfl, hpersist, calls_bind.mpr (.inr
        ⟨_, _, _, _, _, rfl, hsettle, calls_bind.mpr (.inl hcalls)⟩)⟩), hchanges⟩
    | status hpersist hsettle happly hstatus hother =>
      obtain ⟨hcalls, hchanges⟩ := persistComposite_changes_iff.mpr
        (.inr ⟨_, _, happly, hstatus, hother, rfl, rfl⟩)
      exact ⟨calls_bind.mpr (.inr ⟨_, _, _, _, _, rfl, hpersist, calls_bind.mpr (.inr
        ⟨_, _, _, _, _, rfl, hsettle, calls_bind.mpr (.inl hcalls)⟩)⟩), hchanges⟩

/-- A composition changes what is there when it carries out its plan, and not before. -/
theorem compose_changes_iff :
    ((compose .standard request).Calls world composite s log call last ∧
        changed? call = some object) ↔
      ∃ renditions planning acting planned, log = planning ++ acting ∧
        (plan .standard request).Succeeds world composite s planning renditions composite planned ∧
        Overwrites world request.environment renditions composite planned acting call object last := by
  rw [compose_eq, calls_bind]
  constructor
  · rintro ⟨hplans | ⟨renditions, planned, composite', planning, acting, rfl, hplan, hcarry⟩, hchanges⟩
    · exact absurd ⟨hplans, hchanges⟩
        (unchanged_of_always (plan_always request composite) changed?_of_plans)
    · obtain ⟨rfl, -⟩ := plan_planned hplan
      exact ⟨renditions, planning, acting, planned, rfl, hplan,
        carryOut_changes_iff.mp ⟨hcarry, hchanges⟩⟩
  · rintro ⟨renditions, planning, acting, planned, rfl, hplan, hoverwrites⟩
    obtain ⟨hcalls, hchanges⟩ := carryOut_changes_iff.mpr hoverwrites
    exact ⟨.inr ⟨renditions, planned, composite, planning, acting, rfl, hplan, hcalls⟩, hchanges⟩

/-! ### The whole pass -/

/-- A pass is about to replace a secret: its composition came to an end and its events are
published; the composite, as the composition left it, names the secret for its connection details;
and the secret was found with other data than those that the composition collected. -/
inductive Publishes (world : World σ) (defaultNamespace : Option String)
    (request : CompositionRequest) (composite : Resource) (s : σ) :
    List Exchange → Resource → σ → Prop where
  /-- The secret is one in place of the one that was found. -/
  | intro {outcome : Outcome} {composed existing : Resource} {named : SecretReference}
      {composing events : List Exchange} {middle announced last : σ}
      (hcompose : (compose .standard request).Succeeds world composite s composing outcome composed
        middle)
      (hevents : Program.Reaches world (publishAll composite.reference outcome.events) middle events
        (.done ()) announced)
      (hnamed : composed.secretReference? = .ok (some named))
      (hfound : world (.get (composed.detailsReference named defaultNamespace)) announced
        (.ok (some existing)) last)
      (hother : Secret.sameData existing (Secret.holding composed
        (composed.detailsReference named defaultNamespace) outcome.connectionDetails) = false) :
      Publishes world defaultNamespace request composite s
        (composing ++ (events ++
          [⟨.get (composed.detailsReference named defaultNamespace), .ok (some existing)⟩]))
        (Secret.inPlaceOf existing.metadata.resourceVersion (Secret.holding composed
          (composed.detailsReference named defaultNamespace) outcome.connectionDetails)) last

/-- The ways in which a pass changes an object that is there: the exchanges before, the call, the
object, and the state then. -/
inductive Route (world : World σ) (defaultNamespace : Option String) (now : Instant)
    (request : CompositionRequest) (composite : Resource) (s : σ) :
    List Exchange → Call → Resource → σ → Prop where
  /-- A plan was made, and is carried out. -/
  | composing {renditions : List (Association × Rendition)} {object : Resource} {call : Call}
      {planning acting : List Exchange} {planned last : σ}
      (hplan : (plan .standard request).Succeeds world composite s planning renditions composite
        planned)
      (hoverwrites : Overwrites world request.environment renditions composite planned acting call
        object last) :
      Route world defaultNamespace now request composite s (planning ++ acting) call object last
  /-- The secret with the connection details is replaced. -/
  | publishing {log : List Exchange} {secret : Resource} {last : σ}
      (hpublishes : Publishes world defaultNamespace request composite s log secret last) :
      Route world defaultNamespace now request composite s log (.update secret) secret last
  /-- The condition of the composite is reported. -/
  | reporting {outcome : Outcome} {composed reported : Resource}
      {composing events details : List Exchange} {middle announced last : σ}
      (hcompose : (compose .standard request).Succeeds world composite s composing outcome composed
        middle)
      (hevents : Program.Reaches world (publishAll composite.reference outcome.events) middle events
        (.done ()) announced)
      (hdetails : (publishDetails defaultNamespace composed outcome).Succeeds world announced details
        () last)
      (hset : composed.setCondition now (readyCondition outcome) = .ok (true, reported)) :
      Route world defaultNamespace now request composite s (composing ++ (events ++ details))
        (.patchStatus reported
          (.object [("status", (reported.body.get? "status").getD .null)])) reported last

theorem publishSecret_changes_iff {details : ConnectionDetails} :
    ((c.publishDetails defaultNamespace details).Calls world s log call last ∧
        changed? call = some object) ↔
      ∃ named existing, c.secretReference? = .ok (some named) ∧
        log = [⟨.get (c.detailsReference named defaultNamespace), .ok (some existing)⟩] ∧
        world (.get (c.detailsReference named defaultNamespace)) s (.ok (some existing)) last ∧
        Secret.sameData existing
          (Secret.holding c (c.detailsReference named defaultNamespace) details) = false ∧
        object = Secret.inPlaceOf existing.metadata.resourceVersion
          (Secret.holding c (c.detailsReference named defaultNamespace) details) ∧
        call = .update object := by
  constructor
  · rintro ⟨hcalls, hchanges⟩
    obtain hnone | ⟨named?, _, _, _, rfl, hfirst, hrest⟩ := Attempt.calls_bind.mp hcalls
    · exact absurd hnone Attempt.calls_ofExcept
    obtain ⟨hnamed, rfl, rfl⟩ := Attempt.succeeds_ofExcept.mp hfirst
    have hsecret := Except.mapError_eq_ok.mp hnamed
    cases named? with
    | none => exact absurd hrest Attempt.calls_pure
    | some named =>
      obtain hget | ⟨existing?, _, _, _, rfl, hget, hwrite⟩ := Attempt.calls_bind.mp hrest
      · exact absurd ⟨Attempt.calls_asking.mp hget, hchanges⟩ (unchanged_of_ask rfl)
      obtain ⟨hfound, rfl⟩ := Program.reaches_ask.mp (Attempt.succeeds_asking.mp hget)
      cases existing? with
      | none =>
        obtain hcreate | ⟨_, _, _, _, _, -, hpure⟩ := Attempt.calls_bind.mp hwrite
        · exact absurd ⟨Attempt.calls_asking.mp hcreate, hchanges⟩ (unchanged_of_ask rfl)
        · exact absurd hpure Attempt.calls_pure
      | some existing =>
        dsimp only at hwrite
        split at hwrite
        · exact absurd hwrite Attempt.calls_pure
        · next hother =>
          obtain hupdate | ⟨_, _, _, _, _, -, hpure⟩ := Attempt.calls_bind.mp hwrite
          · obtain ⟨rfl, rfl, rfl⟩ := Program.calls_ask.mp (Attempt.calls_asking.mp hupdate)
            obtain rfl := Option.some.inj hchanges
            exact ⟨named, existing, hsecret, rfl, hfound, Bool.eq_false_iff.mpr hother, rfl, rfl⟩
          · exact absurd hpure Attempt.calls_pure
  · rintro ⟨named, existing, hsecret, rfl, hfound, hother, rfl, rfl⟩
    refine ⟨Attempt.calls_bind.mpr (.inr ⟨some named, s, [], _, rfl,
      Attempt.succeeds_ofExcept.mpr ⟨Except.mapError_eq_ok.mpr hsecret, rfl, rfl⟩, ?_⟩), rfl⟩
    refine Attempt.calls_bind.mpr (.inr ⟨some existing, last, _, [], rfl,
      Attempt.succeeds_asking.mpr (Program.reaches_ask.mpr ⟨hfound, rfl⟩), ?_⟩)
    dsimp only
    split
    · next hsame => exact absurd hsame (Bool.eq_false_iff.mp hother)
    · exact Attempt.calls_bind.mpr (.inl (Attempt.calls_asking.mpr
        (Program.calls_ask.mpr ⟨rfl, rfl, rfl⟩)))

theorem publishDetails_changes_iff {outcome : Outcome} :
    ((publishDetails defaultNamespace c outcome).Calls world s log call last ∧
        changed? call = some object) ↔
      (c.publishDetails defaultNamespace outcome.connectionDetails).Calls world s log call last ∧
        changed? call = some object := by
  refine and_congr_left fun hchanges => Program.calls_bind.trans (or_iff_left ?_)
  rintro ⟨e | changed, _, _, _, rfl, -, hpublish⟩
  · obtain hpublish | ⟨_, _, _, _, _, -, hdone⟩ := Program.calls_bind.mp hpublish
    · exact unchanged_of_ask rfl ⟨hpublish, hchanges⟩
    · exact Program.calls_done hdone
  · cases changed with
    | false => exact Program.calls_done hpublish
    | true =>
      obtain hpublish | ⟨_, _, _, _, _, -, hdone⟩ := Program.calls_bind.mp hpublish
      · exact unchanged_of_ask rfl ⟨hpublish, hchanges⟩
      · exact Program.calls_done hdone

theorem reportReadiness_changes_iff {outcome : Outcome} :
    ((reportReadiness now c outcome).Calls world s log call last ∧ changed? call = some object) ↔
      c.setCondition now (readyCondition outcome) = .ok (true, object) ∧ log = [] ∧ last = s ∧
        call = .patchStatus object
          (.object [("status", (object.body.get? "status").getD .null)]) := by
  constructor
  · rintro ⟨hcalls, hchanges⟩
    obtain hnone | ⟨⟨changed, reported⟩, _, _, _, rfl, hfirst, hrest⟩ := Attempt.calls_bind.mp hcalls
    · exact absurd hnone Attempt.calls_ofExcept
    obtain ⟨hcondition, rfl, rfl⟩ := Attempt.succeeds_ofExcept.mp hfirst
    cases changed with
    | false => exact absurd hrest Attempt.calls_pure
    | true =>
      obtain hpatch | ⟨_, _, _, _, _, -, hpure⟩ := Attempt.calls_bind.mp hrest
      · obtain ⟨rfl, rfl, rfl⟩ := Program.calls_ask.mp (Attempt.calls_asking.mp hpatch)
        obtain rfl := Option.some.inj hchanges
        exact ⟨Except.mapError_eq_ok.mp hcondition, rfl, rfl, rfl⟩
      · exact absurd hpure Attempt.calls_pure
  · rintro ⟨hcondition, rfl, rfl, rfl⟩
    refine ⟨Attempt.calls_bind.mpr (.inr ⟨(true, object), last, [], [], rfl,
      Attempt.succeeds_ofExcept.mpr ⟨Except.mapError_eq_ok.mpr hcondition, rfl, rfl⟩, ?_⟩), rfl⟩
    exact Attempt.calls_bind.mpr (.inl (Attempt.calls_asking.mpr
      (Program.calls_ask.mpr ⟨rfl, rfl, rfl⟩)))

/-- In every world, for every composite and every revision: a pass is about to change an object that
is there exactly where one of the routes leads. -/
theorem reconcile_changes_iff :
    ((reconcile .standard defaultNamespace now request composite).Calls world s log call last ∧
        changed? call = some object) ↔
      Route world defaultNamespace now request composite s log call object last := by
  constructor
  · rintro ⟨hcalls, hchanges⟩
    obtain hcompose | ⟨⟨e | outcome, composed⟩, middle, composing, _, rfl, hcompose, hrest⟩ :=
      Program.calls_bind.mp hcalls
    · obtain ⟨renditions, planning, acting, planned, rfl, hplan, hoverwrites⟩ :=
        compose_changes_iff.mp ⟨hcompose, hchanges⟩
      exact .composing hplan hoverwrites
    · obtain hpublish | ⟨_, _, _, _, _, -, hdone⟩ := Program.calls_bind.mp hrest
      · exact absurd ⟨hpublish, hchanges⟩ (unchanged_of_ask rfl)
      · exact absurd hdone Program.calls_done
    obtain hpublish | ⟨⟨⟩, announced, events, _, rfl, hevents, hbody⟩ := Program.calls_bind.mp hrest
    · exact absurd ⟨hpublish, hchanges⟩
        (unchanged_of_always (publishAll_always (fun _ => rfl) _) fun _ => id)
    obtain hdetails | ⟨⟨⟩, delivered, details, _, rfl, hdetails, hready⟩ :=
      Attempt.calls_bind.mp hbody
    · obtain ⟨named, existing, hnamed, rfl, hfound, hother, rfl, rfl⟩ :=
        publishSecret_changes_iff.mp (publishDetails_changes_iff.mp ⟨hdetails, hchanges⟩)
      exact .publishing (.intro hcompose hevents hnamed hfound hother)
    obtain hreport | ⟨_, _, _, _, _, -, hpure⟩ := Attempt.calls_bind.mp hready
    · obtain ⟨hset, rfl, rfl, rfl⟩ := reportReadiness_changes_iff.mp ⟨hreport, hchanges⟩
      rw [List.append_nil]
      exact .reporting hcompose hevents hdetails hset
    · exact absurd hpure Attempt.calls_pure
  · intro h
    cases h with
    | composing hplan hoverwrites =>
      obtain ⟨hcalls, hchanges⟩ :=
        compose_changes_iff.mpr ⟨_, _, _, _, rfl, hplan, hoverwrites⟩
      exact ⟨Program.calls_bind.mpr (.inl hcalls), hchanges⟩
    | publishing hpublishes =>
      obtain ⟨hcompose, hevents, hnamed, hfound, hother⟩ := hpublishes
      obtain ⟨hcalls, hchanges⟩ := publishDetails_changes_iff.mpr
        (publishSecret_changes_iff.mpr ⟨_, _, hnamed, rfl, hfound, hother, rfl, rfl⟩)
      exact ⟨Program.calls_bind.mpr (.inr ⟨_, _, _, _, rfl, hcompose, Program.calls_bind.mpr (.inr
        ⟨_, _, _, _, rfl, hevents, Attempt.calls_bind.mpr (.inl hcalls)⟩)⟩), hchanges⟩
    | reporting hcompose hevents hdetails hset =>
      obtain ⟨hcalls, hchanges⟩ := reportReadiness_changes_iff.mpr ⟨hset, rfl, rfl, rfl⟩
      refine ⟨Program.calls_bind.mpr (.inr ⟨_, _, _, _, rfl, hcompose, Program.calls_bind.mpr (.inr
        ⟨_, _, _, _, rfl, hevents, Attempt.calls_bind.mpr (.inr
          ⟨_, _, _, _, (List.append_nil _).symm, hdetails, Attempt.calls_bind.mpr (.inl hcalls)⟩)⟩)⟩),
        hchanges⟩

end Composition

end ResourceComposition
