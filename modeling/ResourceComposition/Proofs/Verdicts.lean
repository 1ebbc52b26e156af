import ResourceComposition.Proofs.Failures
import ResourceComposition.Proofs.Housekeeping
import ResourceComposition.Proofs.Readiness
import ResourceComposition.Proofs.Staying

/-!
# The verdicts of a pass agree

A pass says three times whether all composed resources are ready: in the time after which it asks to
be called again, in the condition that it would set, and in the condition that is stored, which is
written only if it says anything new. `Composition.Verdict` says that the three agree. What excludes
a stale condition is that a composition leaves its composite at rest in the store, and that what
comes between the composition and the condition leaves all statuses alone.

If the composition fails, or the connection details cannot be published, the pass ends there.
`Composition.Ending` lists the ways in which a pass can end, each with all that was done before, and
`Composition.reconcile_verdicts` says that there are no others.
-/

namespace ResourceComposition

open Resource

/-! ### Statuses that stay -/

namespace Memory

variable {m after : Memory} {form : Json} {key : ObjectKey} {log : List Exchange}

/-- What was stored under a key still is, and its status is as it was. -/
def SameStatus (m after : Memory) : Prop :=
  ∀ key form, m.lookup? key = some form →
    ∃ form', after.lookup? key = some form' ∧ form'.field? "status" = form.field? "status"

theorem SameStatus.refl (m : Memory) : SameStatus m m := fun _ form h => ⟨form, h, rfl⟩

theorem SameStatus.trans {middle : Memory} (h : SameStatus m middle) (h' : SameStatus middle after) :
    SameStatus m after := by
  intro key form hform
  obtain ⟨form₁, hform₁, hstatus₁⟩ := h key form hform
  obtain ⟨form₂, hform₂, hstatus₂⟩ := h' key form₁ hform₁
  exact ⟨form₂, hform₂, hstatus₂.trans hstatus₁⟩

theorem sameStatus_of_lookup? (h : ∀ key form, m.lookup? key = some form →
    after.lookup? key = some form) : SameStatus m after :=
  fun key form hform => ⟨form, h key form hform, rfl⟩

theorem sameStatus_create (object : Resource) (dryRun : Bool) (m : Memory) :
    SameStatus m (m.create object dryRun).2 := by
  have hsame := lookup?_of_objects (objects_named object m)
  unfold create
  cases hnamed : m.named object with
  | mk named after =>
    rw [hnamed] at hsame
    refine sameStatus_of_lookup? fun key form hform => ?_
    cases named with
    | error e => exact (hsame key).trans hform
    | ok created =>
      cases dryRun with
      | true => exact (hsame key).trans hform
      | false =>
        simp only [Bool.false_eq_true, if_false]
        split
        · exact (hsame key).trans hform
        · next hnone =>
          refine (lookup?_put ..).trans ((if_neg ?_).trans ((hsame key).trans hform))
          rintro rfl
          exact hnone (by rw [hsame, hform]; rfl)

theorem sameStatus_replace {object : Resource} (hobject : object.encode.field? "status" = none)
    (m : Memory) : SameStatus m (m.write object (replaceForm object)).2 := by
  intro key form hform
  unfold write
  cases hlookup : m.lookup? object.key with
  | none => exact ⟨form, hform, rfl⟩
  | some stored =>
    dsimp only
    rw [lookup?_put]
    split
    · next hkey =>
      rw [hkey, hlookup] at hform
      obtain rfl := Option.some.inj hform
      refine ⟨_, rfl, (field?_versioned _ (by decide)).trans ?_⟩
      rw [replaceForm]
      cases stored.field? "status" with
      | none => exact hobject
      | some status => exact Dict.get?_insert_self ..
    · exact ⟨form, hform, rfl⟩

theorem Obeys.sameStatus {request : Call} {reply : request.Reply} (h : Obeys request m reply after)
    (hspares : request.SparesStatus) : SameStatus m after := by
  cases h with
  | refused cause => exact .refl m
  | told name => exact .refl m
  | served =>
    cases request with
    | get reference => exact .refl m
    | publish about event action => exact .refl m
    | create object dryRun => exact sameStatus_create object dryRun m
    | update object => exact sameStatus_replace hspares m
    | _ => exact hspares.elim

theorem sameStatus_of_trace (h : Trace Filing m log after)
    (hspares : ∀ exchange ∈ log, exchange.request.SparesStatus) : SameStatus m after :=
  (h.invariant (I := SameStatus m) (.refl m) fun exchange hmem _ _ hs hreply =>
    hs.trans (hreply.obeys.sameStatus (hspares exchange hmem))).1

theorem Rests.of_sameStatus {r : Resource} (h : Rests r m) (hsame : SameStatus m after) :
    Rests r after := by
  obtain ⟨form, hform, hstatus⟩ := h
  obtain ⟨form', hform', hstatus'⟩ := hsame _ form hform
  exact ⟨form', hform', hstatus'.trans hstatus⟩

theorem Rests.sorted_status {r : Resource} (h : Rests r m) (hm : m.Filed) :
    ((r.body.get? "status").getD .null).fields.Sorted := by
  obtain ⟨form, hform, hstatus⟩ := h
  rw [← hstatus]
  exact ((hm.lookup? hform).1.getD_field? "status").sorted

end Memory

/-! ### Reading the conditions of what was patched -/

namespace Resource

/-- Conditions are read from the status. -/
theorem conditions_of_status {r : Resource} {status : Json} {items : List Json}
    (hstatus : r.body.get? "status" = some status)
    (hitems : status.field? "conditions" = some (.array items)) :
    r.conditions = parsedConditions items := by
  cases status with
  | object fields =>
    rw [Json.field?_object] at hitems
    simp [conditions, get?, Json.get?, parse_conditionsPath, bind, Except.bind, Json.follow?, hstatus,
      hitems, Json.isNull]
  | _ => simp [Json.field?, Json.fields] at hitems

end Resource

namespace Composition

open Composing Memory

variable {c : Collaborators} {request : CompositionRequest} {composite composed : Resource}
  {now : Instant} {o : Outcome} {defaultNamespace : Option String} {m last : Memory}
  {log : List Exchange}

/-! ### Publishing leaves every status alone -/

/-- Telling of a composition and publishing its connection details leaves every status alone. -/
theorem publishing_spares {about : Reference} {events : List Event} {middle announced : Memory}
    {early late : List Exchange} {published : Except CompositionError Unit}
    (hpublish : Program.Reaches Filing (publishAll about events) middle early (.done ()) announced)
    (hdetails : Program.Reaches Filing (publishDetails defaultNamespace composed o).run announced late
      (.done published) last) :
    (∀ exchange ∈ early ++ late, exchange.request.SparesStatus) ∧ SameStatus middle last := by
  have hearly : ∀ exchange ∈ early, exchange.request.SparesStatus :=
    (publishAll_always (fun _ => trivial) events).of_reaches hpublish
  have hlate := (publishDetails_always composed o).of_reaches hdetails
  exact ⟨List.forall_mem_append.mpr ⟨hearly, hlate⟩,
    (sameStatus_of_trace hpublish.trace hearly).trans (sameStatus_of_trace hdetails.trace hlate)⟩

/-! ### The condition that is stored -/

/-- Patching a status writes the list of conditions as it is. -/
theorem patchStatus_stores {object stored : Resource} {status : Json} {fields : Dict Json}
    {items : List Json} (hm : m.Filed)
    (h : Filing (.patchStatus object (.object [("status", status)])) m (.ok stored) last)
    (hstatus : status = .object fields) (hsorted : fields.Sorted)
    (hitems : fields.get? "conditions" = some (.array items)) :
    ∃ form, last.lookup? object.key = some form ∧ ofJson form = .ok stored ∧
      stored.conditions = parsedConditions items := by
  subst hstatus
  obtain ⟨form, -, hread, hlast⟩ := of_patchStatus h.obeys
  have hlookup := hlast ▸ (lookup?_put ..).trans (if_pos rfl)
  obtain ⟨hordered, -⟩ := (h.filed hm).lookup? hlookup
  refine ⟨_, hlookup, hread, ?_⟩
  have hstatus : stored.body.get? "status" =
      some (Json.mergePatch ((form.field? "status").getD .null) (.object fields)) := by
    rw [(of_ofJson hread hordered.sorted).2.2.body "status" (by simp [headerNames]),
      field?_versioned _ (by decide), statusOnly,
      Json.field?_mergePatch form (by simp [Dict.sorted_cons])]
    rfl
  refine conditions_of_status hstatus ?_
  rw [Json.field?_mergePatch _ hsorted, hitems]
  rfl

/-- After the condition was reported, the first `Ready` condition that is stored says what the
outcome says, whether the status was written or not. -/
theorem reportReadiness_stores (hnow : now.Valid) (hm : m.Filed) (hrests : Rests composed m)
    (h : (reportReadiness now composed o).Succeeds Filing m log () last) :
    ∃ form stored verdict, last.lookup? composed.key = some form ∧ ofJson form = .ok stored ∧
      stored.condition? Condition.ready = some verdict ∧
      verdict.equivalent (readyCondition o) = true := by
  have hfiled := filed_of_reaches hm h
  obtain ⟨changed, reported, hcondition, hwritten⟩ := succeeds_reportReadiness h
  obtain ⟨verdict, hverdict, hsame⟩ := condition?_setCondition hnow (readyCondition_valid o) hcondition
  rw [readyCondition_type] at hverdict
  -- It is enough that what is stored has the conditions of what was reported.
  suffices hstored : ∃ form stored, last.lookup? composed.key = some form ∧ ofJson form = .ok stored ∧
      stored.conditions = reported.conditions by
    obtain ⟨form, stored, hform, hread, hconditions⟩ := hstored
    exact ⟨form, stored, verdict, hform, hread, by rwa [condition?, hconditions], hsame⟩
  obtain ⟨rfl, -, rfl⟩ | ⟨rfl, stored, -, hpatch⟩ := hwritten
  · obtain rfl := eq_of_setCondition hcondition
    obtain ⟨form, hform, hstatus⟩ := hrests
    obtain ⟨hordered, stored, hread, -⟩ := hm.lookup? hform
    refine ⟨form, stored, hform, hread, conditions_congr ?_⟩
    rw [← hstatus]
    exact (of_ofJson hread hordered.sorted).2.2.body "status" (by simp [headerNames])
  · obtain ⟨fields, items, hfields, rfl⟩ := changed_of_setCondition hcondition
    have hstatus := Dict.get?_insert_self "status"
      (Json.object (fields.insert "conditions" (.array items))) composed.body
    obtain ⟨form, hform, hread, hconditions⟩ := patchStatus_stores hm hpatch (by rw [hstatus]; rfl)
      (Json.sorted_fieldsForWriting hfields (hrests.sorted_status hm)).insert
      (Dict.get?_insert_self ..)
    refine ⟨form, stored, hform, hread, hconditions.trans (conditions_of_status hstatus ?_).symm⟩
    exact Dict.get?_insert_self ..

/-! ### The whole pass -/

/-- The verdicts of a pass agree: whether all resources of the outcome are ready, when to come back,
and what the first `Ready` condition of the stored composite says. -/
structure Verdict (o : Outcome) (requeue : Nat) (stored : Resource) : Prop where
  /-- The pass comes back after a minute exactly if all resources are ready. -/
  settled : (∀ entry ∈ o.composed, entry.ready = true) ↔ requeue = 60
  /-- The condition is true exactly if all resources are ready. -/
  condition : (∀ entry ∈ o.composed, entry.ready = true) ↔ ∃ verdict,
    stored.condition? Condition.ready = some verdict ∧ verdict.status = .true
  /-- Otherwise the pass comes back sooner, and the condition names those that are not. -/
  pending : (¬ ∀ entry ∈ o.composed, entry.ready = true) → requeue = 15 ∧ ∃ verdict,
    stored.condition? Condition.ready = some verdict ∧ verdict.status = .false ∧
      verdict.reason = "Creating" ∧
      verdict.message = "Unready resources: " ++ ", ".intercalate
        ((o.composed.filter fun entry => !entry.ready).map fun entry =>
          if entry.templateName.isEmpty then "(anonymous)" else entry.templateName)

theorem allReady_iff (o : Outcome) :
    o.allReady = true ↔ ∀ entry ∈ o.composed, entry.ready = true := by
  simp [Outcome.allReady]

/-- Of resources some of which are not ready the condition names those. -/
theorem readyCondition_pending (h : ¬ ∀ entry ∈ o.composed, entry.ready = true) :
    readyCondition o = .creating ("Unready resources: " ++ ", ".intercalate
      ((o.composed.filter fun entry => !entry.ready).map fun entry =>
        pendingName entry.templateName)) := by
  unfold readyCondition
  split
  · next hnone =>
    refine absurd (fun entry hmem => ?_) h
    simpa using List.filter_eq_nil_iff.mp hnone entry hmem
  · rfl

theorem verdict_of_equivalent {stored : Resource} {verdict : Condition}
    (hstored : stored.condition? Condition.ready = some verdict)
    (hsame : verdict.equivalent (readyCondition o) = true) :
    Verdict o (if o.allReady then readyRequeue else notReadyRequeue) stored := by
  simp only [Condition.equivalent, decide_eq_true_eq] at hsame
  obtain ⟨-, hstatus, hreason, hmessage⟩ := hsame
  refine ⟨?_, ?_, fun hpending => ?_⟩
  · rw [← allReady_iff]
    cases o.allReady <;> simp [readyRequeue, notReadyRequeue]
  · rw [← readyCondition_status, ← hstatus]
    refine ⟨fun h => ⟨verdict, hstored, h⟩, ?_⟩
    rintro ⟨verdict', hstored', h⟩
    obtain rfl := Option.some.inj (hstored.symm.trans hstored')
    exact h
  · rw [readyCondition_pending hpending] at hstatus hreason hmessage
    rw [if_neg (mt (allReady_iff o).mp hpending)]
    exact ⟨rfl, verdict, hstored, hstatus, hreason, hmessage⟩

/-- A world in which a pass keeps all forms where they belong. -/
inductive Tended : Collaborators → CompositionRequest → Resource → World Memory → Prop where
  /-- The store sees to it itself, whatever the collaborators are. -/
  | filing {c : Collaborators} {request : CompositionRequest} {composite : Resource} :
      Tended c request composite Filing
  /-- The store does as it is told, and the pass is one of production whose templates leave types
  alone. -/
  | standard {request : CompositionRequest} {composite : Resource} (hrequest : LeavesTypes request)
      (hcomposite : composite.Definite) : Tended .standard request composite Obeys

/-- Where a pass gets to in such a world, it gets to in a store that is kept well. -/
theorem Tended.reaches {world : World Memory} {q : Program (Except CompositionError Nat)}
    (hworld : Tended c request composite world) (hm : m.Filed)
    (h : Program.Reaches world (reconcile c defaultNamespace now request composite).run m log q last) :
    Program.Reaches Filing (reconcile c defaultNamespace now request composite).run m log q last := by
  cases hworld with
  | filing => exact h
  | standard hrequest hcomposite =>
    exact (reconcile_filing hm hrequest hcomposite defaultNamespace now h).1

/-- How a pass ends: the exchanges, the result, and the store in the end. -/
inductive Ending (c : Collaborators) (defaultNamespace : Option String) (now : Instant)
    (request : CompositionRequest) (composite : Resource) (m : Memory) :
    List Exchange → Except CompositionError Nat → Memory → Prop where
  /-- The composition fails. One warning is published, and nothing else happens. -/
  | failed {composing : List Exchange} {e : CompositionError} {composed : Resource} {middle : Memory}
      (hcompose : (compose c request).Fails Filing composite m composing e composed middle) :
      Ending c defaultNamespace now request composite m
        (composing ++ [publishing composite.reference (.warning Event.cannotCompose e.message)])
        (.error e) middle
  /-- The connection details cannot be published. No status is written after the composition. -/
  | unpublished {composing events details : List Exchange} {o : Outcome} {composed : Resource}
      {e : CompositionError} {middle announced last : Memory}
      (hcompose : (compose c request).Succeeds Filing composite m composing o composed middle)
      (hevents : Program.Reaches Filing (publishAll composite.reference o.events) middle events
        (.done ()) announced)
      (hdetails : (publishDetails defaultNamespace composed o).Fails Filing announced details e last)
      (hspares : ∀ exchange ∈ events ++ details, exchange.request.SparesStatus)
      (hsame : SameStatus middle last) :
      Ending c defaultNamespace now request composite m (composing ++ (events ++ details)) (.error e)
        last
  /-- The condition cannot be reported. -/
  | unreported {composing events details readiness : List Exchange} {o : Outcome}
      {composed : Resource} {e : CompositionError} {middle announced delivered last : Memory}
      (hcompose : (compose c request).Succeeds Filing composite m composing o composed middle)
      (hevents : Program.Reaches Filing (publishAll composite.reference o.events) middle events
        (.done ()) announced)
      (hdetails : (publishDetails defaultNamespace composed o).Succeeds Filing announced details ()
        delivered)
      (hreport : (reportReadiness now composed o).Fails Filing delivered readiness e last) :
      Ending c defaultNamespace now request composite m
        (composing ++ (events ++ (details ++ readiness))) (.error e) last
  /-- The pass succeeds, and its verdicts agree. The composite is stored under the key of what the
  composition left of it. That is its own key if the collaborators are those of production and the
  templates do not divert it. -/
  | settled {composing events details readiness : List Exchange} {o : Outcome}
      {composed stored : Resource} {form : Json} {requeue : Nat}
      {middle announced delivered last : Memory}
      (hcompose : (compose c request).Succeeds Filing composite m composing o composed middle)
      (hevents : Program.Reaches Filing (publishAll composite.reference o.events) middle events
        (.done ()) announced)
      (hdetails : (publishDetails defaultNamespace composed o).Succeeds Filing announced details ()
        delivered)
      (hreport : (reportReadiness now composed o).Succeeds Filing delivered readiness () last)
      (hkey : c = .standard → StaysPut request composite → composed.key = composite.key)
      (hform : last.lookup? composed.key = some form)
      (hread : ofJson form = .ok stored)
      (hverdict : Verdict o requeue stored) :
      Ending c defaultNamespace now request composite m
        (composing ++ (events ++ (details ++ readiness))) (.ok requeue) last

/-- How a pass ends. If the composition fails, one warning is published and nothing else happens. If
it succeeds and the connection details cannot be published, no status is written any more. If the
pass succeeds, its verdicts agree, of the composite as it is stored where the composition left it.
The store may refuse any call. Either it keeps all forms where they belong, and then the composition
may have any collaborators; or the collaborators are those of production, which see to that. -/
theorem reconcile_verdicts {world : World Memory} {result : Except CompositionError Nat}
    (hnow : now.Valid) (hm : m.Filed) (hworld : Tended c request composite world)
    (h : Program.Reaches world (reconcile c defaultNamespace now request composite).run m log
      (.done result) last) :
    last.Filed ∧ Ending c defaultNamespace now request composite m log result last := by
  have hpass := hworld.reaches hm h
  refine ⟨filed_of_reaches hm hpass, ?_⟩
  obtain ⟨⟨ending, composed⟩, middle, composing, late, rfl, hcompose, hrest⟩ :=
    Program.reaches_bind.mp hpass
  cases ending with
  | error e =>
    obtain ⟨⟨⟩, _, _, _, rfl, hpublish, hend⟩ := Program.reaches_bind.mp hrest
    obtain ⟨hreply, rfl⟩ := Program.reaches_ask.mp hpublish
    obtain ⟨rfl, rfl, rfl⟩ := Program.reaches_done.mp hend
    obtain rfl := of_publish hreply.obeys
    exact .failed hcompose
  | ok o =>
    obtain ⟨hfiled, hrests⟩ := rests_of_compose hm hcompose
    obtain ⟨⟨⟩, announced, events, _, rfl, hpublish, hbody⟩ := Program.reaches_bind.mp hrest
    cases result with
    | error e =>
      obtain hfails | ⟨⟨⟩, delivered, details, _, rfl, hdetails, hrest⟩ := Attempt.fails_bind.mp hbody
      · obtain ⟨hspares, hsame⟩ := publishing_spares hpublish hfails
        exact .unpublished hcompose hpublish hfails hspares hsame
      · obtain hfails | ⟨⟨⟩, _, _, _, _, -, hend⟩ := Attempt.fails_bind.mp hrest
        · exact .unreported hcompose hpublish hdetails hfails
        · cases (Program.reaches_done.mp hend).1
    | ok requeue =>
      obtain ⟨⟨⟩, delivered, details, _, rfl, hdetails, hrest⟩ := Attempt.succeeds_bind.mp hbody
      obtain ⟨⟨⟩, _, readiness, _, rfl, hreport, hend⟩ := Attempt.succeeds_bind.mp hrest
      obtain ⟨rfl, rfl, rfl⟩ := Attempt.succeeds_pure.mp hend
      obtain ⟨-, hsame⟩ := publishing_spares hpublish hdetails
      obtain ⟨form, stored, verdict, hform, hread, hstored, hequivalent⟩ := reportReadiness_stores hnow
        (filed_of_reaches (filed_of_reaches hfiled hpublish) hdetails) (hrests.of_sameStatus hsame)
        hreport
      rw [List.append_nil]
      refine .settled hcompose hpublish hdetails hreport ?_ hform hread
        (verdict_of_equivalent hstored hequivalent)
      rintro rfl hput
      exact hput.key_eq hm hcompose

/-! ### A hermit in a draught -/

/-- A recipe of a door that is always ready and a window that is not ready by itself. -/
def draughty : Revision where
  templates := [
    { name := some "door"
      base := .object [("apiVersion", .string "v1"), ("kind", .string "Door")]
      readinessChecks := [{ type := .none }] },
    { name := some "window"
      base := .object [("apiVersion", .string "v1"), ("kind", .string "Window")] }]

theorem draughty_leavesTypes : LeavesTypes { revision := draughty } where
  environment := by decide
  templates := by
    rintro templates ⟨⟩
    simp only [List.forall_mem_cons]
    exact ⟨⟨⟨⟨"v1", "Door"⟩, ⟨by decide, rfl, rfl⟩, by decide⟩, by simp⟩,
      ⟨⟨⟨"v1", "Window"⟩, ⟨by decide, rfl, rfl⟩, by decide⟩, by simp⟩, nofun⟩

theorem hermit_definite : hermit.Definite :=
  have hordered : hermit.encode.Ordered := by decide +kernel
  ⟨upright_of_ofJson hordered (ofJson_eq_ok.mpr (by decide +kernel)), by decide⟩

theorem hermit_staysPut : StaysPut { revision := draughty } hermit where
  proper := hermit_definite.upright.proper
  named := by decide
  spares := by
    rintro templates ⟨⟩
    simp

/-- The pass over the hermit succeeds, the hermit is stored under its own key, and all verdicts are
that the window is not ready. -/
theorem hermit_verdicts : dawn.Valid ∧ (({} : Memory).insert hermit).Filed ∧
    Tended .standard { revision := draughty } hermit Obeys ∧ ∃ log last form stored o,
    (reconcile .standard none dawn { revision := draughty } hermit).Succeeds Obeys
      (({} : Memory).insert hermit) log 15 last ∧
    last.Filed ∧ last.lookup? hermit.key = some form ∧ ofJson form = .ok stored ∧
    Verdict o 15 stored := by
  have hfiled : (({} : Memory).insert hermit).Filed := by decide +kernel
  have htended : Tended .standard { revision := draughty } hermit Obeys :=
    .standard draughty_leavesTypes hermit_definite
  obtain ⟨log, result, last, hreaches, hresult⟩ := Program.reaches_of_run Memory.handler
    (reconcile .standard none dawn { revision := draughty } hermit).run (({} : Memory).insert hermit)
    (fun result _ _ => result.toOption = some 15) (by decide +kernel)
  obtain rfl : result = .ok 15 := by
    cases result <;> simp_all [Except.toOption]
  have hsucceeds := hreaches.mono fun _ _ _ _ => obeys_handler
  obtain ⟨hlast, hending⟩ := reconcile_verdicts dawn_valid hfiled htended hsucceeds
  generalize hresult : (Except.ok 15 : Except CompositionError Nat) = result at hending
  cases hending with
  | settled hcompose hevents hdetails hreport hkey hform hread hverdict =>
    obtain rfl := Except.ok.inj hresult
    rw [hkey rfl hermit_staysPut] at hform
    exact ⟨dawn_valid, hfiled, htended, _, last, _, _, _, hsucceeds, hlast, hform, hread, hverdict⟩
  | _ => cases hresult

end Composition

end ResourceComposition
