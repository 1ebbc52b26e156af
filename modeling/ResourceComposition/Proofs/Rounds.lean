import ResourceComposition.Proofs.Collection
import ResourceComposition.Proofs.Turns

/-!
# What matching by name did, call by call

A turn of matching by name makes one call or two, and there are few ways in which it can go. `Turn`
lists them, each with the calls that it makes and the bindings that it leaves, and `Round` says how
turns follow one another until the references are used up, a resource names no template, or a call
fails. Every run of the matching is such a round (`byNameRecord_cases`), whatever the store replies,
so what holds of all rounds is shown by induction on them.

Two things are shown here. The references are read one after another, to the last, unless the round
ends early (`Round.gets`). And what a round that does not fail has deleted are the orphans that it
has read (`Round.deletesOrphans`).
-/

namespace ResourceComposition

namespace Association

variable {composite : Resource} {templates : List Template} {reference : Reference}
  {references rest : List Reference} {fallback bound more : List Association}

/-- The ways in which a turn can go, with its end and its calls. It ends in bindings, or in none if
they are given up. -/
inductive Turn (composite : Resource) (reference : Reference) (bound : List Association) :
    Except CompositionError (Option (List Association)) → List Exchange → Prop where
  /-- There is no resource behind the reference. -/
  | gone {reply : Except Error (Option Resource)} : (∀ r, reply ≠ .ok (some r)) →
      Turn composite reference bound (.ok (some bound)) [⟨.get reference, reply⟩]
  /-- The reference cannot be read. -/
  | unread {e : Error} {failure : CompositionError} :
      Turn composite reference bound (.error failure) [⟨.get reference, .error e⟩]
  /-- The resource names no template. -/
  | nameless {r : Resource} : r.templateName? = none →
      Turn composite reference bound (.ok none) [reading reference r]
  /-- The resource names a template, and is bound to it. -/
  | bound {r : Resource} {name : String} {more : List Association} : r.templateName? = some name →
      bindName name reference bound = some more →
      Turn composite reference bound (.ok (some more)) [reading reference r]
  /-- The template is gone, and the resource is not the composite's to delete. -/
  | left {r : Resource} {name : String} : r.templateName? = some name →
      bindName name reference bound = none → composite.controls r = false →
      Turn composite reference bound (.ok (some bound)) [reading reference r]
  /-- The template is gone, and the resource is deleted. -/
  | deleted {r : Resource} {name : String} : r.templateName? = some name →
      bindName name reference bound = none → composite.controls r = true →
      Turn composite reference bound (.ok (some bound)) [reading reference r, deleting r]
  /-- The template is gone, but the resource cannot be deleted. -/
  | undeleted {r : Resource} {name : String} {e : Error} {failure : CompositionError} :
      r.templateName? = some name → bindName name reference bound = none →
      composite.controls r = true →
      Turn composite reference bound (.error failure) [reading reference r, ⟨.delete r, .error e⟩]

/-- Turns over references, first to last, with the end of the matching and all calls. -/
inductive Round (composite : Resource) (fallback : List Association) : List Reference →
    List Association → Except CompositionError (List Association) → List Exchange → Prop where
  /-- The references are used up. -/
  | done {bound : List Association} : Round composite fallback [] bound (.ok bound) []
  /-- A turn leaves bindings, and the matching goes on with them. -/
  | next {reference : Reference} {rest : List Reference} {bound more : List Association}
      {result : Except CompositionError (List Association)} {log after : List Exchange} :
      Turn composite reference bound (.ok (some more)) log →
      Round composite fallback rest more result after →
      Round composite fallback (reference :: rest) bound result (log ++ after)
  /-- A turn gives the bindings up. -/
  | givenUp {reference : Reference} {rest : List Reference} {bound : List Association}
      {log : List Exchange} : Turn composite reference bound (.ok none) log →
      Round composite fallback (reference :: rest) bound (.ok fallback) log
  /-- A turn fails. -/
  | failed {reference : Reference} {rest : List Reference} {bound : List Association}
      {e : CompositionError} {log : List Exchange} : Turn composite reference bound (.error e) log →
      Round composite fallback (reference :: rest) bound (.error e) log

/-! ### From programs to rounds -/

section

variable {σ : Type} {world : World σ} {s last : σ} {log : List Exchange}

theorem reaches_turn {result : Except CompositionError (Option (List Association))}
    (h : Program.Reaches world (turn composite reference bound).run s log (.done result) last) :
    Turn composite reference bound result log := by
  obtain ⟨e, hfind, rfl⟩ | ⟨object?, middle, before, after, rfl, hfind, hrest⟩ :=
    Attempt.reaches_run_bind.mp h
  · obtain ⟨reply, rfl, ⟨object?, -, habsurd⟩ | ⟨e', -, -, habsurd⟩ | ⟨e', rfl, -⟩⟩ :=
      Attempt.of_reaches_find hfind
    · cases habsurd
    · cases habsurd
    · exact .unread
  · obtain ⟨reply, rfl, -, hreply⟩ := Attempt.succeeds_find.mp hfind
    cases object? with
    | none =>
      obtain ⟨rfl, rfl, -⟩ := Program.reaches_done.mp hrest
      refine .gone fun r hr => ?_
      obtain rfl | ⟨e, rfl, -⟩ := hreply <;> cases hr
    | some r =>
      obtain rfl : reply = .ok (some r) :=
        hreply.resolve_right fun ⟨_, _, _, habsurd⟩ => nomatch habsurd
      dsimp only at hrest
      cases hname : r.templateName? with
      | none =>
        simp only [hname] at hrest
        obtain ⟨rfl, rfl, -⟩ := Program.reaches_done.mp hrest
        exact .nameless hname
      | some name =>
        simp only [hname] at hrest
        cases hbind : bindName name reference bound with
        | some more =>
          simp only [hbind] at hrest
          obtain ⟨rfl, rfl, -⟩ := Program.reaches_done.mp hrest
          exact .bound hname hbind
        | none =>
          simp only [hbind] at hrest
          by_cases hcontrols : composite.controls r = true
          · rw [if_pos hcontrols] at hrest
            obtain ⟨e, hasked, rfl⟩ | ⟨_, _, early, late, rfl, hasked, hend⟩ :=
              Attempt.reaches_run_bind.mp hrest
            · obtain ⟨reply, hcall, hfailed⟩ := Attempt.reaches_run_asking.mp hasked
              obtain ⟨-, rfl⟩ := Program.reaches_ask.mp hcall
              cases reply with
              | ok _ => cases hfailed
              | error e => exact .undeleted hname hbind hcontrols
            · obtain ⟨-, rfl⟩ := Program.reaches_ask.mp (Attempt.succeeds_asking.mp hasked)
              obtain ⟨rfl, rfl, -⟩ := Program.reaches_done.mp hend
              exact .deleted hname hbind hcontrols
          · rw [if_neg hcontrols] at hrest
            obtain ⟨rfl, rfl, -⟩ := Program.reaches_done.mp hrest
            exact .left hname hbind (by simpa using hcontrols)

theorem reaches_collect {result : Except CompositionError (List Association)}
    (h : Program.Reaches world (collect composite fallback references bound).run s log
      (.done result) last) : Round composite fallback references bound result log := by
  induction references generalizing bound s log with
  | nil =>
    obtain ⟨rfl, rfl, -⟩ := Program.reaches_done.mp h
    exact .done
  | cons reference rest ih =>
    rw [collect_cons] at h
    obtain ⟨e, hturn, rfl⟩ | ⟨more?, middle, before, after, rfl, hturn, hrest⟩ :=
      Attempt.reaches_run_bind.mp h
    · exact .failed (reaches_turn hturn)
    · cases more? with
      | some more => exact .next (reaches_turn hturn) (ih hrest)
      | none =>
        obtain ⟨rfl, rfl, -⟩ := Program.reaches_done.mp hrest
        rw [List.append_nil]
        exact .givenUp (reaches_turn hturn)

end

/-- If all templates have names, the record of matching by name is that of a round over the
references of the composite, unless these cannot be read. -/
theorem byNameRecord_cases {σ : Type} (store : Handler σ) (s : σ) (composite : Resource)
    (hnames : ∀ t ∈ templates, t.name ≠ none) :
    let (result, log) := byNameRecord store s composite templates
    ((∃ e, result = .error e) ∧ log = []) ∨
      ∃ references, composite.resourceRefs = .ok references ∧
        Round composite (byOrder templates references) references (byOrder templates []) result
          log := by
  obtain ⟨log, hlog, hreaches⟩ :=
    Program.reaches_run_logged store (byName composite templates).run s []
  simp only [byNameRecord, hlog, List.nil_append]
  generalize ((byName composite templates).run.run store s).1 = result at hreaches ⊢
  unfold byName at hreaches
  rw [if_neg (by simpa [Option.isNone_iff_eq_none] using hnames)] at hreaches
  obtain ⟨e, hheld, rfl⟩ | ⟨references, middle, before, after, rfl, hheld, hcollect⟩ :=
    Attempt.reaches_run_bind.mp hreaches
  · obtain ⟨-, rfl, -⟩ := Program.reaches_done.mp hheld
    exact .inl ⟨⟨e, rfl⟩, rfl⟩
  · obtain ⟨hreferences, rfl, -⟩ := Attempt.succeeds_ofExcept.mp hheld
    refine .inr ⟨references, ?_, reaches_collect hcollect⟩
    cases hread : composite.resourceRefs with
    | error e => rw [hread] at hreferences; cases hreferences
    | ok found => rw [hread] at hreferences; exact congrArg _ (Except.ok.inj hreferences)

/-! ### What is read -/

/-- The reference that an exchange reads. -/
def got? : Exchange → Option Reference
  | ⟨.get reference, _⟩ => some reference
  | _ => none

variable {result : Except CompositionError (List Association)} {log : List Exchange}

/-- A turn reads its reference, and no other. -/
theorem Turn.gets {ending : Except CompositionError (Option (List Association))}
    (h : Turn composite reference bound ending log) : log.filterMap got? = [reference] := by
  cases h <;> rfl

/-- Nothing is read where there is no resource. -/
theorem ne_reading {reply : Except Error (Option Resource)} (h : ∀ r, reply ≠ .ok (some r))
    (reference' : Reference) (r : Resource) : reading reference' r ≠ ⟨.get reference, reply⟩ := by
  intro heq
  simp only [reading, Exchange.mk.injEq, Call.get.injEq] at heq
  obtain ⟨rfl, hreply⟩ := heq
  exact h r (eq_of_heq hreply).symm

/-- The resource that a turn reads names a template, unless the turn gives the bindings up. -/
theorem Turn.named {ending : Except CompositionError (Option (List Association))}
    (h : Turn composite reference bound ending log) (hending : ending ≠ .ok none) : Named log := by
  have hone {r : Resource} {name : String} (hname : r.templateName? = some name) :
      Named [reading reference r] := fun reference' r' hmem => by
    obtain ⟨-, rfl⟩ := reading_inj.mp (List.mem_singleton.mp hmem)
    rw [hname]
    exact nofun
  cases h with
  | gone hnone => exact fun _ _ hmem => absurd (List.mem_singleton.mp hmem) (ne_reading hnone _ _)
  | unread => exact fun _ _ hmem => absurd (List.mem_singleton.mp hmem) (ne_reading (by simp) _ _)
  | nameless => exact absurd rfl hending
  | bound hname => exact hone hname
  | left hname => exact hone hname
  | deleted hname => exact (hone hname).snoc (by simp [deleting, reading])
  | undeleted hname => exact (hone hname).snoc (by simp [reading])

/-- The references are read one after another, to the last, unless the round ends early. -/
theorem Round.gets (h : Round composite fallback references bound result log)
    (hnamed : Named log) {associations : List Association} (hresult : result = .ok associations) :
    log.filterMap got? = references := by
  induction h with
  | done => rfl
  | next hturn _ ih =>
    rw [List.filterMap_append, hturn.gets, ih (fun _ _ hmem => hnamed _ _
      (List.mem_append_right _ hmem)) hresult]
    rfl
  | givenUp hturn =>
    cases hturn with
    | nameless hname => exact absurd hname (hnamed _ _ (List.mem_singleton_self _))
  | failed => cases hresult

/-- A resource that names no template is read last, and makes the round end in the fallback. -/
theorem Round.givenUp_of_nameless (h : Round composite fallback references bound result log)
    {r : Resource} (hmem : reading reference r ∈ log) (hname : r.templateName? = none) :
    result = .ok fallback ∧ ∃ before, log = before ++ [reading reference r] ∧ Named before := by
  induction h with
  | done => cases hmem
  | next hturn _ ih =>
    have hfirst := hturn.named (by simp)
    obtain hmem | hmem := List.mem_append.mp hmem
    · exact absurd hname (hfirst _ _ hmem)
    · obtain ⟨hresult, before, rfl, hnamed⟩ := ih hmem
      refine ⟨hresult, _ ++ before, (List.append_assoc ..).symm, fun reference' r' hread => ?_⟩
      exact (List.mem_append.mp hread).elim (hfirst _ _) (hnamed _ _)
  | givenUp hturn =>
    cases hturn with
    | nameless _ =>
      rw [← List.mem_singleton.mp hmem]
      exact ⟨rfl, [], rfl, by simp [Named]⟩
  | failed hturn => exact absurd hname (hturn.named (by simp) _ _ hmem)

/-! ### What is deleted -/

theorem Turn.keeps_templates (h : Turn composite reference bound (.ok (some more)) log)
    (hbound : bound.map (·.template) = templates) : more.map (·.template) = templates := by
  cases h with
  | bound _ hbind => exact (bindName_templates hbind).trans hbound
  | gone => exact hbound
  | left => exact hbound
  | deleted => exact hbound

theorem delete_eq_deleting {r r' : Resource} {reply : Except Error Unit} :
    (⟨.delete r, reply⟩ : Exchange) = deleting r' ↔ r = r' ∧ reply = .ok () := by
  simp only [deleting, Exchange.mk.injEq, Call.delete.injEq]
  refine and_congr_right ?_
  rintro rfl
  simp

/-- What is deleted in a record are the orphans that are read in it, with success. -/
def DeletesOrphans (composite : Resource) (templates : List Template) (log : List Exchange) :
    Prop :=
  ∀ r reply, ⟨.delete r, reply⟩ ∈ log ↔
    reply = .ok () ∧ Orphan composite templates r ∧ ∃ reference, reading reference r ∈ log

theorem DeletesOrphans.append {after : List Exchange} (h : DeletesOrphans composite templates log)
    (hafter : DeletesOrphans composite templates after) :
    DeletesOrphans composite templates (log ++ after) := by
  intro r reply
  rw [List.mem_append, h r reply, hafter r reply, ← and_or_left, ← and_or_left, ← exists_or]
  simp only [List.mem_append]

/-- An orphan names a template. -/
theorem Orphan.named {r : Resource} (h : Orphan composite templates r) :
    r.templateName? ≠ none := by
  obtain ⟨name, hnote, hne, -⟩ := h.unmatched
  rw [Resource.templateName?, hnote]
  simpa [Option.filter, String.isEmpty_iff] using hne

/-- A turn that does not fail deletes what it reads if that is an orphan, and nothing otherwise. -/
theorem Turn.deletesOrphans {more? : Option (List Association)}
    (h : Turn composite reference bound (.ok more?) log)
    (hbound : bound.map (·.template) = templates) : DeletesOrphans composite templates log := by
  -- What is read and is no orphan is left.
  have hleft {r : Resource} (hnot : ¬ Orphan composite templates r) :
      DeletesOrphans composite templates [reading reference r] := fun r' reply => by
    refine iff_of_false (by simp [reading]) ?_
    rintro ⟨-, horphan, reference', hmem⟩
    obtain ⟨-, rfl⟩ := reading_inj.mp (List.mem_singleton.mp hmem)
    exact hnot horphan
  cases h with
  | gone hnone =>
    refine fun r reply => iff_of_false (by simp) ?_
    rintro ⟨-, -, reference', hmem⟩
    exact ne_reading hnone _ _ (List.mem_singleton.mp hmem)
  | nameless hname => exact hleft fun horphan => horphan.named hname
  | bound hname hbind =>
    exact hleft (by simp [orphan_iff composite reference hbound hname, hbind])
  | left hname _ hcontrols =>
    exact hleft (by simp [orphan_iff composite reference hbound hname, hcontrols])
  | @deleted r name hname hbind hcontrols =>
    have horphan := (orphan_iff composite reference hbound hname).mpr ⟨hbind, hcontrols⟩
    intro r' reply
    simp only [List.mem_cons, List.not_mem_nil, or_false, delete_eq_deleting, reading_inj]
    constructor
    · rintro (habsurd | ⟨rfl, rfl⟩)
      · simp [reading] at habsurd
      · exact ⟨rfl, horphan, reference, .inl ⟨rfl, rfl⟩⟩
    · rintro ⟨rfl, -, reference', ⟨-, rfl⟩ | habsurd⟩
      · exact .inr ⟨rfl, rfl⟩
      · simp [reading, deleting] at habsurd

/-- A round that does not fail deletes the orphans that it reads, and nothing else. -/
theorem Round.deletesOrphans (h : Round composite fallback references bound result log)
    (hbound : bound.map (·.template) = templates) {associations : List Association}
    (hresult : result = .ok associations) : DeletesOrphans composite templates log := by
  induction h with
  | done => exact fun r reply => by simp
  | next hturn _ ih =>
    exact (hturn.deletesOrphans hbound).append (ih (hturn.keeps_templates hbound) hresult)
  | givenUp hturn => exact hturn.deletesOrphans hbound
  | failed => cases hresult

end Association

end ResourceComposition
