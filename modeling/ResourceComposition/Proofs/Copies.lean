import ResourceComposition.Proofs.Tidiness

/-!
# What patches copy, and what is stored of it

A patch copies a value into the spec of a composed resource. If no later patch writes over it, the
value stands in the rendered resource. A new object is stored as it was rendered, so the value stands
in the store as well. An object that was there before is patched with the rendered one, and the
server merges: a value that is no object takes the place of what was there, but an object is merged
with the one before it, so fields that are gone from the source stay.

`Composition.compose_copies` says so of all patches of a composition at once.
-/

namespace ResourceComposition

/-! ### Copying -/

namespace Patch

variable {sources : PatchType → Option Json} {early late patches : List Patch} {p : Patch}
  {place : Nat} {source target after v : Json} {path : FieldPath} {r r' : Resource}

/-- No patch writes to a path, to the way there, or below it. -/
def LeaveAlone (sources : PatchType → Option Json) (patches : List Patch) (path : FieldPath) : Prop :=
  ∀ p ∈ patches, ∀ source v other, sources p.type = some source → p.Copies source v other →
    other.Apart path

theorem leaveAlone_iff : LeaveAlone sources patches path ↔
    ∀ w ∈ writings sources patches, w.path.Apart path := by
  constructor
  · intro h w hw
    obtain ⟨p, hp, source, hsource, hcopies⟩ := mem_writings.mp hw
    exact h p hp source w.value w.path hsource hcopies
  · intro h p hp source v other hsource hcopies
    exact h ⟨other, v⟩ (mem_writings.mpr ⟨p, hp, source, hsource, hcopies⟩)

theorem leaveAlone_nil : LeaveAlone sources [] path := leaveAlone_iff.mpr nofun

/-- What a patch copies stands where it was copied to, if the later patches leave it alone. -/
theorem Copies.follow? (hcopies : p.Copies source v path) (hp : sources p.type = some source)
    (halone : LeaveAlone sources late path)
    (h : copyFields sources place (early ++ p :: late) target = .ok after) :
    after.follow? path = .ok (some v) := by
  obtain ⟨-, hwritten⟩ := copyFields_iff.mp h
  have hw : p.writing? sources = some ⟨path, v⟩ := (writing?_eq_some hp).mpr hcopies
  rw [writings, List.filterMap_append, List.filterMap_cons, hw] at hwritten
  obtain ⟨_, -, hlate⟩ := Json.writeAll_append.mp hwritten
  obtain ⟨written, hwrite, hlate⟩ := Json.writeAll_cons.mp hlate
  have hself : written.follow? path = .ok (some v) := Json.follow?_write_self hwrite hcopies.ne_null
  refine Json.writeAll_keeps (I := (·.follow? path = .ok (some v))) hlate hself ?_
  intro w hw form form' hread hwrite
  exact Json.follow?_write_of_apart hwrite (leaveAlone_iff.mp halone w hw) hread

end Patch

/-! ### What is read in the spec -/

namespace Json

variable {value v : Json} {name : String} {rest : FieldPath}

theorem follow?_field_iff : value.follow? (.field name :: rest) = .ok (some v) ↔
    ∃ child, value.field? name = some child ∧ child.follow? rest = .ok (some v) := by
  rw [follow?_field_eq_some]
  constructor
  · rintro ⟨fields, child, rfl, hget, hchild⟩
    exact ⟨child, hget, hchild⟩
  · rintro ⟨child, hget, hchild⟩
    cases value with
    | object fields => exact ⟨fields, child, rfl, hget, hchild⟩
    | _ => simp [field?, fields] at hget

/-- Values with the same field read the same below it. -/
theorem follow?_congr {other : Json} (h : other.field? name = value.field? name)
    (hread : value.follow? (.field name :: rest) = .ok (some v)) :
    other.follow? (.field name :: rest) = .ok (some v) := by
  obtain ⟨child, hget, hchild⟩ := follow?_field_iff.mp hread
  exact follow?_field_iff.mpr ⟨child, h.trans hget, hchild⟩

/-- What a value that is copied to a path comes to in a store, by what was stored before, if
anything was. -/
def landed (v : Json) (path : FieldPath) : Option Json → Json
  | none => v
  | some before => mergedAt v path before

/-- Into a new object, or in place of what is no object, a value comes as it is. -/
theorem landed_eq {path : FieldPath} {before? : Option Json}
    (h : before? = none ∨ v.isObject = false ∨ ∃ position, .index position ∈ path) :
    landed v path before? = v := by
  cases before? with
  | none => rfl
  | some before =>
    rcases h with habsurd | hv | ⟨position, hindex⟩
    · cases habsurd
    · exact mergedAt_of_not_object hv path before
    · exact mergedAt_of_index hindex before

end Json

namespace Resource

variable {r r' : Resource} {v : Json} {rest : FieldPath}

theorem field?_spec_encode (h : r.Proper) : r.encode.field? "spec" = r.body.get? "spec" :=
  (h.standsIn_encode.body "spec" (by simp [headerNames])).symm

/-- Patching a stored form merges what the resource has in its spec. -/
theorem follow?_patched {form : Json} (h : r.Tidy)
    (hread : r.encode.follow? (.field "spec" :: rest) = .ok (some v)) :
    (Memory.versioned (form.mergePatch (Memory.withoutStatus r.encode))).follow?
      (.field "spec" :: rest) = .ok (some (Json.mergedAt v (.field "spec" :: rest) form)) := by
  obtain ⟨child, hget, hchild⟩ := Json.follow?_field_iff.mp hread
  have hordered : child.Ordered := by
    have hspec := h.encode.spec
    rwa [Json.spec, hget] at hspec
  have hmerged : (form.mergePatch (Memory.withoutStatus r.encode)).field? "spec" =
      some (Json.mergePatch ((form.field? "spec").getD .null) child) := by
    rw [Memory.field?_patched form r (by decide), hget]
    cases child with
    | null => cases rest <;> simp [Json.follow?, Json.isNull] at hchild
    | _ => rfl
  refine Json.follow?_field_iff.mpr ⟨_, ?_, Json.follow?_mergePatch hordered hchild⟩
  rw [Memory.field?_versioned _ (by decide)]
  exact hmerged

end Resource

/-! ### What is stored -/

namespace Memory

variable {m after : Memory} {log : List Exchange} {r object : Resource}

/-- If what is stored under the key of a resource changes once, when the resource is applied, then
the resource is stored as it is, or merged with what was there. -/
theorem lookup?_of_applied (htrace : Trace Obeys m log after)
    (hnamed : r.metadata.unnamed = false) (h : Composition.Applied log r object)
    (honce : (log.filterMap Exchange.changedKey?).count r.key ≤ 1) :
    (m.lookup? r.key = none ∧ after.lookup? r.key = some (fresh r).encode) ∨
      ∃ form, m.lookup? r.key = some form ∧
        after.lookup? r.key = some (versioned (form.mergePatch (withoutStatus r.encode))) := by
  -- Around the exchange that changes the key no other does.
  have hsplit (exchange : Exchange) (hmem : exchange ∈ log)
      (hkey : exchange.changedKey? = some r.key) :
      ∃ s s', s.lookup? r.key = m.lookup? r.key ∧ Obeys exchange.request s exchange.reply s' ∧
        after.lookup? r.key = s'.lookup? r.key := by
    obtain ⟨early, late, rfl⟩ := List.append_of_mem hmem
    obtain ⟨s, hearly, hrest⟩ := htrace.of_append
    cases hrest with
    | cons hreply hlate =>
      simp only [List.filterMap_append, List.filterMap_cons, hkey, List.count_append,
        List.count_cons_self] at honce
      have hnone {part : List Exchange} (hcount : (part.filterMap Exchange.changedKey?).count r.key = 0) :
          ∀ e ∈ part, e.changedKey? ≠ some r.key := by
        intro e he heq
        exact List.count_eq_zero.mp hcount (List.mem_filterMap.mpr ⟨e, he, heq⟩)
      exact ⟨s, _, lookup?_of_trace hearly (hnone (by omega)), hreply,
        lookup?_of_trace hlate (hnone (by omega))⟩
  rcases h with hmem | hmem
  · obtain ⟨s₀, s₁, -, hreply₀⟩ := (htrace.invariant (I := fun _ => True) trivial
      fun _ _ _ _ _ _ => trivial).2 _ hmem
    obtain ⟨-, rfl, -⟩ := of_create hnamed hreply₀
    obtain ⟨s, s', hbefore, hreply, hafter⟩ := hsplit _ hmem rfl
    obtain ⟨hnone, -, rfl⟩ := of_create hnamed hreply
    exact .inl ⟨hbefore ▸ hnone, by rw [hafter, lookup?_put, if_pos rfl]⟩
  · obtain ⟨s, s', hbefore, hreply, hafter⟩ := hsplit _ hmem rfl
    obtain ⟨form, hform, -, rfl⟩ := of_patch hreply
    exact .inr ⟨form, hbefore ▸ hform, by rw [hafter, lookup?_put, if_pos rfl]⟩

end Memory

/-! ### The whole composition -/

namespace Composition

open Composing

variable {environment : Json} {composite composite' r : Resource} {t : Template}
  {log : List Exchange} {m after : Memory} {request : CompositionRequest} {outcome : Outcome}

/-- What a patch copies into the spec stands in the resource that was made. -/
theorem Made.copied {early late : List Patch} {p : Patch} {source v : Json} {rest : FieldPath}
    (h : Made environment composite log t r)
    (hobserved : ∀ before, Observed log before → before.Tidy) (hbase : t.base.Ordered)
    (hcomposite : composite.encode.Ordered) (henvironment : environment.Ordered)
    (hpatches : t.patches = early ++ p :: late)
    (hsource : Patch.composedSource composite environment p.type = some source)
    (hcopies : p.Copies source v (.field "spec" :: rest))
    (halone : Patch.LeaveAlone (Patch.composedSource composite environment) late
      (.field "spec" :: rest)) :
    r.Tidy ∧ r.encode.follow? (.field "spec" :: rest) = .ok (some v) := by
  obtain ⟨htidy, identified, patched, hpatched, hidentified, hbody⟩ :=
    h.tidy hobserved hbase hcomposite henvironment
  refine ⟨htidy, ?_⟩
  obtain ⟨form, hform, hread⟩ | ⟨hnone, -⟩ := Patch.applyTo_eq_ok hpatched
  · have hcopied : form.follow? (.field "spec" :: rest) = .ok (some v) :=
      hcopies.follow? hsource halone (hpatches ▸ hform)
    have hsorted := (Patch.copyFields_tidy (Patch.composedSource_ordered hcomposite henvironment)
      hform hidentified.encode).sorted
    refine Json.follow?_congr ?_ hcopied
    rw [Resource.field?_spec_encode htidy.proper, hbody]
    exact (Resource.of_ofJson hread hsorted).2.2.body "spec" (by simp [Resource.headerNames])
  · rw [hnone p (by simp [hpatches])] at hsource
    cases hsource

/-- After a composition that succeeds, what each patch copied into the spec of a resource stands in
the store, merged with what was there if the object was not new; so a value that is no object, or that
lies in a list, stands there as it is. The later patches of the template leave it alone, and the
object is written once. -/
theorem compose_copies (hm : m.Tidy) (hcomposite : composite.encode.Ordered)
    (henvironment : request.environment.Ordered)
    (hbases : ∀ templates, request.revision.inlinedTemplates = .ok templates →
      ∀ t ∈ templates, t.base.Ordered)
    (h : (compose .standard request).Succeeds Memory.Obeys composite m log outcome composite' after) :
    ∃ renditions planning acting planned,
      log = planning ++ acting ∧
      (plan .standard request).Succeeds Memory.Obeys composite m planning renditions composite
        planned ∧
      (carryOut .standard request.environment renditions).Succeeds Memory.Obeys composite planned
        acting outcome composite' after ∧
      ∀ a r, (a, .rendered r) ∈ renditions →
        (acting.filterMap Exchange.changedKey?).count r.key ≤ 1 →
        ∀ early p late source v rest, a.template.patches = early ++ p :: late →
          Patch.composedSource composite request.environment p.type = some source →
          p.Copies source v (.field "spec" :: rest) →
          Patch.LeaveAlone (Patch.composedSource composite request.environment) late
            (.field "spec" :: rest) →
          ∃ form, after.lookup? r.key = some form ∧
            form.follow? (.field "spec" :: rest) =
              .ok (some (Json.landed v (.field "spec" :: rest) (planned.lookup? r.key))) ∧
            (planned.lookup? r.key = none ∨ v.isObject = false ∨
                (∃ position, .index position ∈ rest) →
              form.follow? (.field "spec" :: rest) = .ok (some v)) := by
  obtain ⟨renditions, planning, acting, planned, rfl, hplan, hcarry⟩ := compose_succeeds.mp h
  obtain ⟨-, hplanned⟩ := plan_planned hplan
  refine ⟨renditions, planning, acting, planned, rfl, hplan, hcarry, ?_⟩
  intro a r hrendered honce early p late source v rest hpatches hsource hcopies halone
  have hmade := hplanned.made a r hrendered
  have hbase : a.template.base.Ordered :=
    hbases _ hplanned.templates _ (List.mem_map_of_mem hrendered)
  have hobserved (before : Resource) (hbefore : Observed planning before) : before.Tidy :=
    Memory.tidy_of_observed hm hplan.trace hplanned.plans hbefore
  obtain ⟨htidy, hcopied⟩ := hmade.copied hobserved hbase hcomposite henvironment hpatches hsource
    hcopies halone
  obtain ⟨object, happlied⟩ := applied_of_settled (carryOut_settled hcarry).1 hrendered
  suffices hlanded : ∃ form, after.lookup? r.key = some form ∧ form.follow? (.field "spec" :: rest) =
      .ok (some (Json.landed v (.field "spec" :: rest) (planned.lookup? r.key))) by
    obtain ⟨form, hform, hfollow⟩ := hlanded
    refine ⟨form, hform, hfollow, fun hplain => ?_⟩
    have hsame : Json.landed v (.field "spec" :: rest) (planned.lookup? r.key) = v := by
      refine Json.landed_eq (hplain.imp_right (Or.imp_right ?_))
      rintro ⟨position, hindex⟩
      exact ⟨position, List.mem_cons_of_mem _ hindex⟩
    rwa [hsame] at hfollow
  obtain ⟨hnone, hnew⟩ | ⟨before, hbefore, hmerged⟩ :=
    Memory.lookup?_of_applied hcarry.trace hmade.named happlied honce
  · refine ⟨_, hnew, ?_⟩
    rw [hnone]
    refine Json.follow?_congr ?_ hcopied
    rw [Resource.field?_spec_encode htidy.proper]
    exact Resource.field?_spec_encode (htidy.proper.congr rfl rfl)
  · refine ⟨_, hmerged, ?_⟩
    rw [hbefore]
    exact Resource.follow?_patched htidy hcopied

/-! ### A tag that is gone -/

/-- The tags of the composite. -/
def fewTags : Json := .object [("a", .int 1)]

/-- The tags that its box had before. -/
def manyTags : Json := .object [("a", .int 1), ("b", .int 2)]

/-- Where the tags stand. -/
def tagsPath : FieldPath := [.field "spec", .field "tags"]

/-- The reference to the box of the composite. -/
def taggedReference : Reference := { apiVersion := some "v1", kind := some "Box", name := some "box" }

/-- A composite with tags. -/
def tagger : Resource where
  typeMeta := some ⟨"v1", "Tagger"⟩
  metadata := {
    name := some "tagger", uid := some "u", labels := some [(Resource.prefixLabel, "tagger")] }
  body := [("spec", .object [
    ("resourceRefs", .array [taggedReference.encode]), ("tags", fewTags)])]

/-- The box of the composite. -/
def tagged : Resource where
  typeMeta := some ⟨"v1", "Box"⟩
  metadata := {
    name := some "box", annotations := some [(Resource.templateAnnotation, "box")]
    ownerReferences := some [tagger.asController] }
  body := [("spec", .object [("tags", manyTags)])]

/-- The patch that copies the tags. -/
def copyTags : Patch := { fromFieldPath := some "spec.tags" }

/-- A template of a box with the tags of the composite. -/
def taggedBox : Template where
  name := some "box"
  base := .object [("apiVersion", .string "v1"), ("kind", .string "Box")]
  patches := [copyTags]

/-- The recipe of that box. -/
def tagging : Revision := { templates := [taggedBox] }

/-- The store of the composite and its box. -/
def tags : Memory := (({} : Memory).insert tagger).insert tagged

/-- The value at a path of what is stored under a key, if it can be followed there. -/
def storedAt (m : Memory) (key : ObjectKey) (path : FieldPath) : Option Json :=
  (m.lookup? key).bind fun form => (form.follow? path).toOption.join

/-- The course of a composition rendered the box alone and wrote it once, and in the end the box has
all its tags. -/
def tagsBox (course : Course Memory) : Bool :=
  match course.renditions with
  | [(a, .rendered r)] => decide (a.template = taggedBox ∧ r.key = tagged.key ∧
      course.planning.filterMap Exchange.changedKey? = [] ∧
      (course.acting.filterMap Exchange.changedKey?).count tagged.key = 1 ∧
      storedAt course.last tagged.key tagsPath = some manyTags)
  | _ => false

/-- A composition of the tagger succeeds and renders the box. The box is written once, and has all
its tags in the end. -/
theorem tagger_course : ∃ course a r,
    course? Memory.handler { revision := tagging } tagger tags = some course ∧
    course.renditions = [(a, .rendered r)] ∧ a.template = taggedBox ∧ r.key = tagged.key ∧
    course.planning.filterMap Exchange.changedKey? = [] ∧
    (course.acting.filterMap Exchange.changedKey?).count tagged.key = 1 ∧
    storedAt course.last tagged.key tagsPath = some manyTags := by
  have hrun : (course? Memory.handler { revision := tagging } tagger tags).any tagsBox = true := by
    decide +kernel
  obtain ⟨course, hcourse, hcheck⟩ := (Option.any_eq_true ..).mp hrun
  unfold tagsBox at hcheck
  split at hcheck
  · next a r hrenditions =>
    obtain ⟨htemplate, hkey, hplanning, hacting, htags⟩ := of_decide_eq_true hcheck
    exact ⟨course, a, r, hcourse, hrenditions, htemplate, hkey, hplanning, hacting, htags⟩
  · cases hcheck

/-- The patch of the box copies the tags of the composite. -/
theorem copyTags_copies : copyTags.Copies tagger.encode fewTags tagsPath := by
  refine ⟨"spec.tags", rfl, ?_, rfl⟩
  decide +kernel

theorem tags_tidy : tags.Tidy := Memory.tidy_of_objects (by decide +kernel)

theorem tagging_ordered (templates : List Template)
    (h : Revision.inlinedTemplates tagging = .ok templates) :
    ∀ t ∈ templates, t.base.Ordered := by
  obtain rfl : [taggedBox] = templates := Except.ok.inj h
  simp only [List.mem_singleton, forall_eq]
  decide

/-- The tags of the composite are merged with those that the box had. -/
theorem tags_merged : tags.Tidy ∧ tagger.encode.Ordered ∧ (Json.object []).Ordered ∧
    (∀ templates, tagging.inlinedTemplates = .ok templates → ∀ t ∈ templates, t.base.Ordered) ∧
    ∃ log outcome composite after form,
      (compose .standard { revision := tagging }).Succeeds Memory.Obeys tagger tags log outcome
        composite after ∧
      after.lookup? tagged.key = some form ∧
      form.follow? tagsPath = .ok (some (Json.landed fewTags tagsPath (tags.lookup? tagged.key))) := by
  obtain ⟨course, a, r, hcourse, hrenditions, htemplate, hkey, hplanning, hacting, -⟩ := tagger_course
  have hordered : tagger.encode.Ordered := by decide +kernel
  have henvironment : (Json.object []).Ordered := ⟨Dict.sorted_nil, trivial⟩
  have hsucceeds := (compose_of_course? hcourse).mono fun _ _ _ _ => Memory.obeys_handler
  obtain ⟨renditions, planning, acting, planned, hlog, hplan, -, hcopied⟩ :=
    compose_copies tags_tidy hordered henvironment tagging_ordered hsucceeds
  obtain ⟨rfl, rfl, rfl⟩ := eq_of_course? hcourse hplan hlog
  have hsame : planned.lookup? tagged.key = tags.lookup? tagged.key := by
    refine Memory.lookup?_of_trace hplan.trace fun exchange hexchange heq => ?_
    have hmem := List.mem_filterMap.mpr ⟨exchange, hexchange, heq⟩
    rw [hplanning] at hmem
    cases hmem
  obtain ⟨form, hform, hfollow, -⟩ := hcopied a r (by simp [hrenditions]) (by rw [hkey]; omega) []
    copyTags [] tagger.encode fewTags [.field "tags"] (by rw [htemplate]; rfl) rfl copyTags_copies
    Patch.leaveAlone_nil
  rw [hkey] at hform hfollow
  exact ⟨tags_tidy, hordered, henvironment, tagging_ordered, _, _, _, _, form, hsucceeds, hform,
    hsame ▸ hfollow⟩

/-- The box does not have the tags of the composite, though they were copied to it and nothing else
wrote to it: the tag that the composite does not have stays. -/
theorem removed_tag_stays : ∃ planning acting outcome composite after planned a r,
    (compose .standard { revision := tagging }).Succeeds Memory.handler.world tagger tags
      (planning ++ acting) outcome composite after ∧
    (plan .standard { revision := tagging }).Succeeds Memory.handler.world tagger tags planning
      [(a, .rendered r)] tagger planned ∧
    a.template.patches = [copyTags] ∧ copyTags.type = .fromComposite ∧
    copyTags.Copies tagger.encode fewTags tagsPath ∧
    ((planning ++ acting).filterMap Exchange.changedKey?).count r.key = 1 ∧
    storedAt after r.key tagsPath ≠ some fewTags := by
  obtain ⟨course, a, r, hcourse, hrenditions, htemplate, hkey, hplanning, hacting, htags⟩ :=
    tagger_course
  refine ⟨course.planning, course.acting, course.outcome, course.composite, course.last,
    course.planned, a, r, compose_of_course? hcourse, hrenditions ▸ (succeeds_of_course? hcourse).1,
    by rw [htemplate]; rfl, rfl, copyTags_copies, ?_, ?_⟩
  · rw [List.filterMap_append, hplanning, List.nil_append, hkey, hacting]
  · rw [hkey, htags]
    decide

end Composition

end ResourceComposition
