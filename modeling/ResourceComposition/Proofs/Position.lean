import ResourceComposition.Proofs.Persistence

/-!
# Association by place

If a template has no name, templates are matched with references by place: the first template with
the first reference, and so on. The references are those that the pass before kept: one for each
template that was rendered, and one for each that was skipped but had a reference. A template that
was skipped without a reference leaves no gap. So the match finds the resource of a template again
exactly if no template before it was skipped without a reference; otherwise all references after the
missing one are given to templates that come too early.
-/

namespace ResourceComposition

namespace Association

variable {composite : Resource} {templates : List Template} {references : List Reference}

theorem getElem?_byOrder (templates : List Template) (references : List Reference) (place : Nat) :
    (byOrder templates references)[place]? =
      templates[place]?.map fun t => ⟨t, references[place]?⟩ := by
  induction templates generalizing references place with
  | nil => rfl
  | cons t rest ih =>
    cases references with
    | nil =>
      cases place with
      | zero => rfl
      | succ place => simpa [byOrder] using ih [] place
    | cons reference more =>
      cases place with
      | zero => rfl
      | succ place => simpa [byOrder] using ih more place

/-- With a template without a name, all templates are matched by place. -/
theorem byName_of_unnamed (hunnamed : ∃ t ∈ templates, t.name = none)
    (h : composite.resourceRefs = .ok references) :
    byName composite templates = pure (byOrder templates references) := by
  have hany : (templates.any fun t => t.name.isNone) = true := by simpa using hunnamed
  rw [byName, if_pos hany, positional, heldReferences, h]
  rfl

end Association

namespace Composition

open Composing

/-! ### Where a reference stands among those that are kept -/

variable {renditions before rest : List (Association × Rendition)} {a : Association}
  {r : Resource}

/-- Nothing is missing before a template: whatever was skipped had a reference. -/
def Gapless (before : List (Association × Rendition)) : Prop :=
  ∀ entry ∈ before, keptReference entry ≠ none

instance (before : List (Association × Rendition)) : Decidable (Gapless before) :=
  inferInstanceAs (Decidable (∀ entry ∈ before, keptReference entry ≠ none))

theorem length_kept : (before.filterMap keptReference).length = before.length ↔ Gapless before := by
  rw [List.filterMap_length_eq_length]
  exact forall₂_congr fun entry _ => Option.isSome_iff_ne_none

/-- The reference to a rendered resource comes after those that were kept before it. -/
theorem getElem?_kept (before rest : List (Association × Rendition)) (a : Association) (r : Resource) :
    ((before ++ (a, .rendered r) :: rest).filterMap keptReference)[
      (before.filterMap keptReference).length]? = some r.reference := by
  simp [keptReference]

/-- The reference to a rendered resource stands at the place of its template exactly if nothing is
missing before. -/
theorem getElem?_kept_iff
    (hnodup : ((before ++ (a, .rendered r) :: rest).filterMap keptReference).Nodup) :
    ((before ++ (a, .rendered r) :: rest).filterMap keptReference)[before.length]? =
      some r.reference ↔ Gapless before := by
  have hkept := getElem?_kept before rest a r
  rw [← length_kept]
  constructor
  · intro hplace
    obtain ⟨hlt, -⟩ := List.getElem?_eq_some_iff.mp hkept
    exact (List.getElem?_inj hlt hnodup).mp (hkept.trans hplace.symm)
  · intro heq
    rwa [heq] at hkept

/-! ### The next pass -/

/-- A revision that is matched by place: a template has no name, all bases are in order, and the
patches spare the composite. -/
structure ByPlace (revision : Revision) (templates : List Template) : Prop where
  /-- The templates. -/
  inlined : revision.inlinedTemplates = .ok templates
  /-- One of them has no name. -/
  unnamed : ∃ t ∈ templates, t.name = none
  /-- The fields of all bases are in order. -/
  ordered : ∀ t ∈ templates, t.base.Ordered
  /-- No patch writes to the type, the name or the namespace of the composite, or to its list of
  references. -/
  spares : ∀ t ∈ templates, ∀ p ∈ t.patches, p.type = .toComposite → p.SparesComposite

variable {request : CompositionRequest} {templates : List Template} {outcome : Outcome}
  {composite composite' : Resource} {m after : Memory} {log planning : List Exchange}

/-- What was rendered according to a plan can be applied. -/
theorem Planned.applicable (h : Planned request composite planning renditions)
    (hplace : ByPlace request.revision templates)
    (hobserved : ∀ before, Observed planning before → before.Tidy)
    (hcomposite : composite.encode.Ordered) (henvironment : request.environment.Ordered) :
    ∀ made ∈ renderedOnly renditions, Applicable made := by
  rintro ⟨t, r⟩ hmem
  obtain ⟨a, hrendered, rfl⟩ := mem_renderedOnly.mp hmem
  have htemplate : a.template ∈ templates := by
    obtain rfl := Except.ok.inj (hplace.inlined.symm.trans h.templates)
    exact List.mem_map_of_mem hrendered
  have hmade := h.made a r hrendered
  obtain ⟨htidy, -⟩ := hmade.tidy hobserved (hplace.ordered _ htemplate) hcomposite henvironment
  exact ⟨htidy, hmade.named, hplace.spares _ htemplate⟩

/-- After a composition that succeeds, the next one with the same revision gives a template that was
rendered the reference to the very resource that was rendered for it, if no template before it was
skipped without a reference; and only then, unless two resources have the same reference. -/
theorem compose_places (hm : m.Tidy) (henvironment : request.environment.Ordered)
    (hcomposite : composite.encode.Ordered) (hlies : composite.LiesAt composite.key)
    (hkind : composite.key.kind ≠ "") (hname : composite.key.name ≠ "")
    (hstored : ∀ form, m.lookup? composite.key = some form → form.LiesAt composite.key)
    (hplace : ByPlace request.revision templates)
    (h : (compose .standard request).Succeeds Memory.Obeys composite m log outcome composite' after) :
    ∃ renditions planning acting planned associations,
      log = planning ++ acting ∧
      (plan .standard request).Succeeds Memory.Obeys composite m planning renditions composite
        planned ∧
      (carryOut .standard request.environment renditions).Succeeds Memory.Obeys composite planned
        acting outcome composite' after ∧
      renditions.map (·.1.template) = templates ∧
      composite'.resourceRefs = .ok (renditions.filterMap keptReference) ∧
      Association.byName composite' templates = pure associations ∧
      ∀ before a r rest, renditions = before ++ (a, .rendered r) :: rest →
        (Gapless before →
          associations[before.length]? = some ⟨a.template, some r.reference⟩) ∧
        ((renditions.filterMap keptReference).Nodup →
          associations[before.length]? = some ⟨a.template, some r.reference⟩ → Gapless before) := by
  obtain ⟨renditions, planning, acting, planned, rfl, hplan, hcarry⟩ := compose_succeeds.mp h
  obtain ⟨-, hplanned⟩ := plan_planned hplan
  have htemplates : renditions.map (·.1.template) = templates :=
    Except.ok.inj (hplanned.templates.symm.trans hplace.inlined)
  have hobserved (before : Resource) (hbefore : Observed planning before) : before.Tidy :=
    Memory.tidy_of_observed hm hplan.trace hplanned.plans hbefore
  have horderly : planned.OrderlyAt composite.key := by
    intro form hform
    rcases Memory.lookup?_of_plans hplan.trace hplanned.plans composite.key with hsame | hnone
    · rw [hsame] at hform
      exact ⟨hstored form hform, (hm _ form hform).spec.sorted⟩
    · rw [hnone] at hform
      cases hform
  have hsorted : composite.spec.fields.Sorted := by
    rw [hlies.proper.standsIn_encode.spec]
    exact hcomposite.tidy.spec.sorted
  have hrefers := carryOut_refers
    (hplanned.applicable hplace hobserved hcomposite henvironment) hkind hname horderly hlies hsorted
    hcarry
  have hrefs : composite'.resourceRefs = .ok (renditions.filterMap keptReference) :=
    Resource.resourceRefs_eq_ok.mpr hrefers.refers.holds.held
  refine ⟨renditions, planning, acting, planned, _, rfl, hplan, hcarry, htemplates, hrefs,
    Association.byName_of_unnamed hplace.unnamed hrefs, ?_⟩
  rintro before a r rest rfl
  have hassociation : (Association.byOrder templates
        ((before ++ (a, .rendered r) :: rest).filterMap keptReference))[before.length]? =
      some ⟨a.template, ((before ++ (a, .rendered r) :: rest).filterMap
        keptReference)[before.length]?⟩ := by
    rw [Association.getElem?_byOrder, ← htemplates]
    simp
  rw [hassociation]
  constructor
  · intro hgapless
    have hkept := getElem?_kept before rest a r
    rw [length_kept.mpr hgapless] at hkept
    rw [hkept]
  · intro hnodup hsame
    exact (getElem?_kept_iff hnodup).mp (Association.mk.inj (Option.some.inj hsame)).2

/-! ### A box and a blank -/

/-- A composite without references. -/
def nomad : Resource where
  typeMeta := some ⟨"v1", "Nomad"⟩
  metadata := {
    name := some "nomad", uid := some "u", labels := some [(Resource.prefixLabel, "nomad")] }
  body := [("spec", .object [("size", .int 3)])]

/-- A template that cannot be rendered. -/
def blank : Template := {}

/-- A template of a box, without a name. -/
def bareBox : Template :=
  { base := .object [("apiVersion", .string "v1"), ("kind", .string "Box")] }

/-- The store of the composite. -/
def steppe : Memory := ({} : Memory).insert nomad

theorem nomad_liesAt : nomad.LiesAt nomad.key := by
  refine Resource.liesAt_key ⟨?_, rfl, rfl, fun _ => rfl⟩ ?_ ?_ <;> decide

/-- The box before the blank. -/
theorem box_before_blank : ByPlace { templates := [bareBox, blank] } [bareBox, blank] where
  inlined := rfl
  unnamed := ⟨blank, by simp, rfl⟩
  ordered := by decide
  spares t ht p hp := by
    have hnone : t.patches = [] := by
      rcases List.mem_cons.mp ht with rfl | ht
      · rfl
      · obtain rfl := List.mem_singleton.mp ht
        rfl
    rw [hnone] at hp
    cases hp

/-- The course of a composition rendered the box and skipped what comes after it. -/
def skipsBlank (course : Course Memory) : Bool :=
  match course.renditions with
  | [(a, .rendered _), (_, .skipped _)] => decide (a.template = bareBox)
  | _ => false

/-- A composition of the nomad succeeds, also with the blank. The composite refers to the box alone. -/
theorem box_before_blank_course : ∃ course a r b cause,
    course? Memory.handler { revision := { templates := [bareBox, blank] } } nomad steppe = some course ∧
    course.renditions = [(a, .rendered r), (b, .skipped cause)] ∧ a.template = bareBox := by
  have hrun : (course? Memory.handler { revision := { templates := [bareBox, blank] } } nomad
      steppe).any skipsBlank = true := by
    decide +kernel
  obtain ⟨course, hcourse, hcheck⟩ := (Option.any_eq_true ..).mp hrun
  unfold skipsBlank at hcheck
  split at hcheck
  · next a r b cause hrenditions =>
    exact ⟨course, a, r, b, cause, hcourse, hrenditions, of_decide_eq_true hcheck⟩
  · cases hcheck

/-- The box is found again at the first place. -/
theorem box_found_again : steppe.Tidy ∧ (Json.object []).Ordered ∧ nomad.encode.Ordered ∧
    nomad.LiesAt nomad.key ∧ nomad.key.kind ≠ "" ∧ nomad.key.name ≠ "" ∧
    (∀ form, steppe.lookup? nomad.key = some form → form.LiesAt nomad.key) ∧
    ByPlace { templates := [bareBox, blank] } [bareBox, blank] ∧
    ∃ planning acting outcome composite after planned a r b cause associations,
      (compose .standard { revision := { templates := [bareBox, blank] } }).Succeeds Memory.Obeys nomad
        steppe (planning ++ acting) outcome composite after ∧
      (plan .standard { revision := { templates := [bareBox, blank] } }).Succeeds Memory.Obeys nomad
        steppe planning [(a, .rendered r), (b, .skipped cause)] nomad planned ∧
      Association.byName composite [bareBox, blank] = pure associations ∧
      associations[0]? = some ⟨bareBox, some r.reference⟩ := by
  obtain ⟨course, a, r, b, cause, hcourse, hrenditions, htemplate⟩ := box_before_blank_course
  have htidy : steppe.Tidy := Memory.tidy_of_objects (by decide +kernel)
  have henvironment : (Json.object []).Ordered := ⟨Dict.sorted_nil, trivial⟩
  have hordered : nomad.encode.Ordered := by decide +kernel
  have hstored (form : Json) (hform : steppe.lookup? nomad.key = some form) :
      form.LiesAt nomad.key := by
    obtain rfl : nomad.encode = form := by
      rw [steppe, Memory.insert, Memory.lookup?_put, if_pos rfl] at hform
      exact Option.some.inj hform
    exact Ledger.liesAt_encode nomad_liesAt
  have hkind : nomad.key.kind ≠ "" := by decide
  have hname : nomad.key.name ≠ "" := by decide
  have hsucceeds := (compose_of_course? hcourse).mono fun _ _ _ _ => Memory.obeys_handler
  obtain ⟨renditions, planning, acting, planned, associations, hlog, hplan, -, -, -, hbyName,
    hplaces⟩ := compose_places htidy henvironment hordered nomad_liesAt hkind hname hstored
      box_before_blank hsucceeds
  obtain ⟨rfl, rfl, rfl⟩ := eq_of_course? hcourse hplan hlog
  obtain ⟨hfound, -⟩ := hplaces [] a r [(b, .skipped cause)] hrenditions
  refine ⟨htidy, henvironment, hordered, nomad_liesAt, hkind, hname, hstored, box_before_blank,
    course.planning, course.acting, _, _, _, planned, a, r, b, cause, associations, hsucceeds,
    hrenditions ▸ hplan, hbyName, ?_⟩
  rw [← htemplate]
  exact hfound (by simp [Gapless])

/-- The course of a composition skipped the first template and rendered the box, and the composite
refers to the box alone. -/
def keepsBox (course : Course Memory) : Bool :=
  match course.renditions with
  | [(_, .skipped _), (a, .rendered r)] => decide (a.template = bareBox ∧
      course.composite.resourceRefs.toOption = some [r.reference])
  | _ => false

/-- With the blank before the box, the reference to the box is given to the blank, and the box, which
was rendered and applied, is left without one. -/
theorem box_given_away : ∃ planning acting outcome composite after planned a r b cause,
    (compose .standard { revision := { templates := [blank, bareBox] } }).Succeeds Memory.handler.world
      nomad steppe (planning ++ acting) outcome composite after ∧
    (plan .standard { revision := { templates := [blank, bareBox] } }).Succeeds Memory.handler.world
      nomad steppe planning [(b, .skipped cause), (a, .rendered r)] nomad planned ∧
    a.template = bareBox ∧ (∃ object, Applied acting r object) ∧
    Association.byName composite [blank, bareBox] =
      pure [⟨blank, some r.reference⟩, ⟨bareBox, none⟩] := by
  have hrun : (course? Memory.handler { revision := { templates := [blank, bareBox] } } nomad
      steppe).any keepsBox = true := by
    decide +kernel
  obtain ⟨course, hcourse, hcheck⟩ := (Option.any_eq_true ..).mp hrun
  unfold keepsBox at hcheck
  split at hcheck
  · next b cause a r hrenditions =>
    obtain ⟨htemplate, hrefs⟩ := of_decide_eq_true hcheck
    obtain ⟨hplan, hcarry⟩ := succeeds_of_course? hcourse
    have hreferences : course.composite.resourceRefs = .ok [r.reference] := by
      cases heq : course.composite.resourceRefs <;> simp_all [Except.toOption]
    refine ⟨course.planning, course.acting, course.outcome, course.composite, course.last,
      course.planned, a, r, b, cause, compose_of_course? hcourse, hrenditions ▸ hplan, htemplate, ?_, ?_⟩
    · have hrendered : (a, .rendered r) ∈ course.renditions := by simp [hrenditions]
      exact applied_of_settled (carryOut_settled hcarry).1 hrendered
    · exact Association.byName_of_unnamed ⟨blank, by simp, rfl⟩ hreferences
  · cases hcheck

end Composition

end ResourceComposition
