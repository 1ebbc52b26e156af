import ResourceComposition.Proofs.Course
import ResourceComposition.Proofs.Paths
import ResourceComposition.Proofs.Rendered
import ResourceComposition.Proofs.Storage

/-!
# Tidy forms

In a JSON value that was read from a text all objects have their fields in order. Reading, writing
and laying over keep it so.

A form is tidy if its own fields are in order, and so is everything in its spec. What a template
makes of a tidy resource is tidy, and so is all that a composition renders while all that is stored
is tidy.
-/

namespace ResourceComposition

/-! ### Values in order -/

namespace Json

variable {value new after v : Json} {path : FieldPath} {name : String}

theorem OrderedFields.insert {fields : Dict Json} (h : OrderedFields fields) (hv : v.Ordered) :
    OrderedFields (fields.insert name v) := by
  refine orderedFields_iff.mpr fun entry hentry => ?_
  obtain rfl | hentry := Dict.mem_insert hentry
  · exact hv
  · exact orderedFields_iff.mp h entry hentry

theorem Ordered.getD_field? (h : value.Ordered) (name : String) :
    ((value.field? name).getD .null).Ordered := by
  cases hfield : value.field? name with
  | none => trivial
  | some w => exact h.field? hfield

/-- What is read from a value in order is in order. -/
theorem Ordered.follow? (h : value.Ordered) (hread : value.follow? path = .ok (some v)) :
    v.Ordered := by
  induction path generalizing value with
  | nil =>
    obtain ⟨rfl, -⟩ := follow?_nil.mp hread
    exact h
  | cons segment rest ih =>
    cases segment with
    | field name =>
      obtain ⟨fields, child, rfl, hget, hchild⟩ := follow?_field_eq_some.mp hread
      exact ih (h.2.get? hget) hchild
    | index position =>
      obtain ⟨items, child, rfl, hget, hchild⟩ := follow?_index_eq_some.mp hread
      exact ih (orderedItems_iff.mp h child (List.mem_of_getElem? hget)) hchild

theorem follow?_of_get? {path : String} (h : value.get? path = .ok (some v)) :
    ∃ segments, FieldPath.parse path = .ok segments ∧ value.follow? segments = .ok (some v) := by
  unfold Json.get? at h
  cases hparse : FieldPath.parse path with
  | error e => simp [hparse, bind, Except.bind] at h
  | ok segments =>
    refine ⟨segments, rfl, ?_⟩
    cases hread : value.follow? segments <;> simp_all [bind, Except.bind]

/-- No null is read. -/
theorem ne_null_of_follow? (hread : value.follow? path = .ok (some v)) : v ≠ .null := by
  induction path generalizing value with
  | nil => exact (follow?_nil.mp hread).2
  | cons segment rest ih =>
    cases segment with
    | field name =>
      obtain ⟨fields, child, -, -, hchild⟩ := follow?_field_eq_some.mp hread
      exact ih hchild
    | index position =>
      obtain ⟨items, child, -, -, hchild⟩ := follow?_index_eq_some.mp hread
      exact ih hchild

/-- Writing keeps a value in order. -/
theorem Ordered.write (h : value.Ordered) (hnew : new.Ordered)
    (hwrite : Json.write new path value = .ok after) : after.Ordered := by
  induction path generalizing value after with
  | nil =>
    obtain rfl := Except.ok.inj hwrite
    exact hnew
  | cons segment rest ih =>
    cases segment with
    | field name =>
      obtain ⟨fields, child, hfields, hchild, rfl⟩ := write_field_eq_ok.mp hwrite
      have hordered : Ordered (.object fields) := by
        cases value <;> simp [fieldsForWriting] at hfields
        · subst hfields
          exact ⟨Dict.sorted_nil, trivial⟩
        · exact hfields ▸ h
      have hbelow : child.Ordered := ih (hordered.getD_field? name) hchild
      exact ⟨hordered.1.insert, hordered.2.insert hbelow⟩
    | index position =>
      obtain ⟨items, child, hitems, hchild, rfl⟩ := write_index_eq_ok.mp hwrite
      have hordered : ∀ item ∈ items, item.Ordered := by
        cases value <;> simp [itemsForWriting] at hitems
        · simp [hitems]
        · exact hitems ▸ orderedItems_iff.mp h
      have hbelow : child.Ordered := by
        refine ih ?_ hchild
        cases hget : items[position]? with
        | none => trivial
        | some item => exact hordered item (List.mem_of_getElem? hget)
      refine orderedItems_iff.mpr fun item hitem => ?_
      obtain hitem | rfl := List.mem_or_eq_of_mem_set hitem
      · obtain hitem | hitem := List.mem_append.mp hitem
        · exact hordered item hitem
        · obtain rfl := List.eq_of_mem_replicate hitem
          trivial
      · exact hbelow

mutual

/-- Laying one value over another keeps them in order. -/
theorem Ordered.overlay {target : Json} (h : target.Ordered) :
    {source : Json} → source.Ordered → (target.overlay source).Ordered
  | .object source, hsource => by
    cases target with
    | object fields =>
      rw [Json.overlay]
      exact OrderedFields.overlay h.1 h.2 hsource.2
    | _ => exact hsource
  | .null, hsource | .bool _, hsource | .int _, hsource | .float _, hsource | .string _, hsource
  | .array _, hsource => by rw [Json.overlay]; exact hsource; simp

/-- Laying fields over fields keeps them in order. -/
theorem OrderedFields.overlay {target : Dict Json} (hsorted : target.Sorted)
    (h : OrderedFields target) :
    {source : List (String × Json)} → OrderedFields source →
      (Json.object (overlayFields target source)).Ordered
  | [], _ => ⟨hsorted, h⟩
  | (name, value) :: rest, hsource => by
    rw [overlayFields]
    have htarget : (Json.object target).Ordered := ⟨hsorted, h⟩
    have hold : ((Dict.get? target name).getD .null).Ordered := htarget.getD_field? name
    exact OrderedFields.overlay hsorted.insert (h.insert (Ordered.overlay hold hsource.1)) hsource.2

end

/-- The fields of a form are in order, and so is everything in its spec. -/
structure Tidy (form : Json) : Prop where
  /-- The fields are in order. -/
  sorted : form.fields.Sorted
  /-- The spec is in order. -/
  spec : form.spec.Ordered

instance (form : Json) : Decidable form.Tidy :=
  decidable_of_iff (form.fields.Sorted ∧ form.spec.Ordered) ⟨fun h => ⟨h.1, h.2⟩, fun h => ⟨h.1, h.2⟩⟩

theorem Ordered.tidy (h : value.Ordered) : value.Tidy := ⟨h.sorted, h.getD_field? "spec"⟩

/-- Writing keeps a form tidy. -/
theorem Tidy.write (h : value.Tidy) (hnew : new.Ordered)
    (hwrite : Json.write new path value = .ok after) : after.Tidy := by
  cases path with
  | nil =>
    obtain rfl := Except.ok.inj hwrite
    exact hnew.tidy
  | cons segment rest =>
    cases segment with
    | index position =>
      obtain ⟨items, child, -, -, rfl⟩ := write_index_eq_ok.mp hwrite
      exact ⟨Dict.sorted_nil, trivial⟩
    | field name =>
      refine ⟨write_field_sorted hwrite h.sorted, ?_⟩
      by_cases hname : name = "spec"
      · subst hname
        obtain ⟨fields, child, hfields, hchild, rfl⟩ := write_field_eq_ok.mp hwrite
        have hold : ((Dict.get? fields "spec").getD .null).Ordered := by
          cases value <;> simp [fieldsForWriting] at hfields
          · subst hfields
            trivial
          · exact hfields ▸ h.spec
        rw [Json.spec, field?_object, Dict.get?_insert_self]
        exact hold.write hnew hchild
      · rw [Json.spec, write_field_ne hwrite hname]
        exact h.spec

end Json

/-! ### Tidy resources -/

namespace Resource

variable {r r' : Resource} {form : Json}

/-- The body of a resource leaves the header to its place, and everything in its spec is in order. -/
structure Tidy (r : Resource) : Prop where
  /-- The body leaves the header to its place. -/
  proper : r.Proper
  /-- The spec is in order. -/
  spec : r.spec.Ordered

theorem Tidy.congr (h : r.Tidy) (htype : r'.typeMeta = r.typeMeta) (hbody : r'.body = r.body) :
    r'.Tidy where
  proper := h.proper.congr htype hbody
  spec := by
    rw [Resource.spec, hbody]
    exact h.spec

theorem tidy_of_body_nil (hbody : r.body = []) : r.Tidy where
  proper := proper_empty hbody
  spec := by
    rw [Resource.spec, hbody]
    trivial

theorem tidy_of_ofJson (h : form.Tidy) (hread : ofJson form = .ok r) : r.Tidy := by
  obtain ⟨-, hproper, hstands⟩ := of_ofJson hread h.sorted
  exact ⟨hproper, hstands.spec ▸ h.spec⟩

theorem Tidy.encode (h : r.Tidy) : r.encode.Tidy where
  sorted := r.encode_sorted
  spec := h.proper.standsIn_encode.spec ▸ h.spec

end Resource

/-! ### Rendering -/

namespace Patch

variable {p : Patch} {patches : List Patch} {place : Nat} {source target after v : Json}
  {path : FieldPath} {source? : PatchType → Option Json} {r r' : Resource}

theorem Copies.ordered (h : p.Copies source v path) (hsource : source.Ordered) : v.Ordered := by
  obtain ⟨origin, -, hread, -⟩ := h
  obtain ⟨segments, -, hfollow⟩ := Json.follow?_of_get? hread
  exact hsource.follow? hfollow

theorem Copies.ne_null (h : p.Copies source v path) : v ≠ .null := by
  obtain ⟨origin, -, hread, -⟩ := h
  obtain ⟨segments, -, hfollow⟩ := Json.follow?_of_get? hread
  exact Json.ne_null_of_follow? hfollow

theorem copyFields_tidy (hsource : ∀ type source, source? type = some source → source.Ordered)
    (h : copyFields source? place patches target = .ok after) (htarget : target.Tidy) :
    after.Tidy :=
  copyFields_keeps h htarget fun _ _ _ _ _ hp hcopies _ _ hform hwrite =>
    hform.write (hcopies.ordered (hsource _ _ hp)) hwrite

theorem applyTo_tidy (hsource : ∀ type source, source? type = some source → source.Ordered)
    (h : applyTo source? patches r = .ok r') (hr : r.Tidy) : r'.Tidy := by
  obtain ⟨patched, hpatched, hread⟩ | ⟨-, rfl⟩ := applyTo_eq_ok h
  · exact Resource.tidy_of_ofJson (copyFields_tidy hsource hpatched hr.encode) hread
  · exact hr

theorem composedSource_ordered {composite : Resource} {environment : Json}
    (hcomposite : composite.encode.Ordered) (henvironment : environment.Ordered) (type : PatchType)
    (source : Json) (h : composedSource composite environment type = some source) :
    source.Ordered := by
  cases type with
  | fromComposite => exact Option.some.inj h ▸ hcomposite
  | fromEnvironment => exact Option.some.inj h ▸ henvironment
  | _ => cases h

end Patch

namespace Template

variable {t : Template} {environment : Json} {composite before r : Resource}

theorem laidOver_tidy (hbase : t.base.Ordered) (hbefore : before.Tidy)
    (h : t.laidOver before = .ok r) : r.Tidy := by
  unfold laidOver at h
  split at h
  · next hobject =>
    have hmerged : (before.encode.overlay t.base).Tidy := by
      refine ⟨Json.sorted_overlay before.encode_sorted hbase, ?_⟩
      have hfield : (before.encode.overlay t.base).field? "spec" = _ :=
        Json.field?_overlay before.encode.fields hobject hbase.sorted "spec"
      rw [Json.spec, hfield]
      cases htop : t.base.field? "spec" with
      | none => exact hbefore.encode.spec
      | some top => exact hbefore.encode.spec.overlay (hbase.field? htop)
    cases hread : Resource.ofJson (before.encode.overlay t.base) with
    | error e => simp [hread] at h
    | ok read =>
      obtain rfl : read = r := by simpa [hread] using h
      exact Resource.tidy_of_ofJson hmerged hread
  · cases h

/-- What preparing makes of a tidy resource is tidy. Its body is what the patches made of it. -/
theorem prepare_tidy (hbase : t.base.Ordered) (hcomposite : composite.encode.Ordered)
    (henvironment : environment.Ordered) (hbefore : before.Tidy)
    (h : t.prepare environment composite before = .ok r) :
    r.Tidy ∧ ∃ identified patched, Patch.applyToComposed t.patches composite environment identified =
      .ok patched ∧ identified.Tidy ∧ r.body = patched.body := by
  obtain ⟨merged, namePrefix, patched, hlaid, -, hpatched, hadopt⟩ := prepare_eq_ok h
  have hid := t.identify_spec composite.identifyingLabels namePrefix before merged
  have hidentified := (laidOver_tidy hbase hbefore hlaid).congr hid.type hid.body
  have htidy := Patch.applyTo_tidy (Patch.composedSource_ordered hcomposite henvironment) hpatched
    hidentified
  obtain ⟨rfl, -, -⟩ := adopt_spec hadopt
  exact ⟨htidy.congr rfl rfl, _, patched, hpatched, hidentified, rfl⟩

end Template

/-! ### Planning -/

namespace Memory

/-- All that is stored is tidy. -/
def Tidy (m : Memory) : Prop := ∀ key form, m.lookup? key = some form → form.Tidy

variable {m after : Memory} {log : List Exchange}

theorem tidy_of_objects (h : ∀ entry ∈ m.objects, entry.2.Tidy) : m.Tidy := by
  intro key form hform
  obtain ⟨early, late, hobjects, -⟩ := List.lookup_eq_some_iff.mp hform
  exact h (key, form) (by simp [hobjects])

/-- A call of planning leaves what is stored under a key, or deletes it. -/
theorem Obeys.plans {request : Call} {reply : request.Reply} (h : Obeys request m reply after)
    (hplans : request.Plans) (key : ObjectKey) :
    after.lookup? key = m.lookup? key ∨ after.lookup? key = none := by
  by_cases hkey : Exchange.changedKey? ⟨request, reply⟩ = some key
  · -- Of the calls of planning only a deletion changes anything.
    cases request with
    | delete object =>
      obtain rfl : object.key = key := by simpa [Exchange.changedKey?] using hkey
      cases h with
      | refused cause => exact .inl rfl
      | served => exact .inr ((lookup?_remove ..).trans (if_pos rfl))
    | create object dryRun =>
      cases dryRun with
      | true => simp [Exchange.changedKey?] at hkey
      | false => exact hplans.elim
    | get reference => simp [Exchange.changedKey?] at hkey
    | _ => exact hplans.elim
  · exact .inl (h.lookup?_eq hkey)

/-- Planning leaves what is stored under a key, or deletes it. -/
theorem lookup?_of_plans (htrace : Trace Obeys m log after)
    (hplans : ∀ exchange ∈ log, exchange.request.Plans) (key : ObjectKey) :
    after.lookup? key = m.lookup? key ∨ after.lookup? key = none := by
  refine (htrace.invariant (I := fun s => s.lookup? key = m.lookup? key ∨ s.lookup? key = none)
    (.inl rfl) fun exchange hmem s after hs hreply => ?_).1
  rcases hreply.plans (hplans exchange hmem) key with hsame | hnone
  · rwa [hsame]
  · exact .inr hnone

theorem Tidy.plans {request : Call} {reply : request.Reply} (hm : m.Tidy)
    (h : Obeys request m reply after) (hplans : request.Plans) : after.Tidy := by
  intro key form hform
  obtain hsame | hnone := h.plans hplans key
  · exact hm key form (hsame ▸ hform)
  · rw [hnone] at hform
    cases hform

/-- While the store is tidy, so is all that planning finds in it. -/
theorem tidy_of_observed {before : Resource} (hm : m.Tidy) (htrace : Trace Obeys m log after)
    (hplans : ∀ exchange ∈ log, exchange.request.Plans) (h : Composition.Observed log before) :
    before.Tidy := by
  obtain ⟨reference, hmem⟩ | rfl | ⟨reference, rfl⟩ := h
  · obtain ⟨-, hstates⟩ := htrace.invariant (I := Tidy) hm fun exchange hexchange s after hs hreply =>
      hs.plans hreply (hplans exchange hexchange)
    obtain ⟨s, after, hs, hreply⟩ := hstates _ hmem
    obtain ⟨form, hform, hread⟩ := (of_get hreply).2 before rfl
    exact Resource.tidy_of_ofJson (hs _ form hform) hread
  · exact Resource.tidy_of_body_nil rfl
  · exact Resource.tidy_of_body_nil rfl

end Memory

namespace Composition

/-- What was made of tidy resources is tidy. Its body is what the patches made of some such
resource. -/
theorem Made.tidy {environment : Json} {composite r : Resource} {t : Template} {log : List Exchange}
    (h : Made environment composite log t r)
    (hobserved : ∀ before, Observed log before → before.Tidy) (hbase : t.base.Ordered)
    (hcomposite : composite.encode.Ordered) (henvironment : environment.Ordered) :
    r.Tidy ∧ ∃ identified patched, Patch.applyToComposed t.patches composite environment identified =
      .ok patched ∧ identified.Tidy ∧ r.body = patched.body := by
  obtain ⟨before, prepared, hbefore, hprepare, hr⟩ := h.prepared
  obtain ⟨htidy, identified, patched, hpatched, hidentified, hbody⟩ :=
    Template.prepare_tidy hbase hcomposite henvironment (hobserved before hbefore) hprepare
  have hsame : r.body = prepared.body := by rw [hr]
  exact ⟨htidy.congr (by rw [hr]) hsame, identified, patched, hpatched, hidentified,
    hsame.trans hbody⟩

end Composition

end ResourceComposition
