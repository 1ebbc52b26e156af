import ResourceComposition.Proofs.Copies
import ResourceComposition.Proofs.Repatching

/-!
# What patching changes

Patches are applied to the form of a resource, and the resource is read from the form again. Outside
of the header the resource then reads as the form that was patched (`Patch.copied_of_applyTo`). So
what a patch copied there is found in the resource, if no later patch writes over it, and all that
lies apart from what was written is as it was.

In place, a resource changes only if all of its patches can be applied (`Patch.applyInPlace_eq`). A
patch that does not say what it copies prevents that, and so does one that lacks what it needs.
-/

namespace ResourceComposition

/-- A path that does not begin in the header of a resource. -/
def FieldPath.OutsideHeader (path : FieldPath) : Prop :=
  ∀ name ∈ Resource.headerNames, path.head? ≠ some (.field name)

instance (path : FieldPath) : Decidable path.OutsideHeader :=
  inferInstanceAs (Decidable (∀ name ∈ Resource.headerNames, _))

/-- Outside of the header, a resource reads as the form that it was read from. -/
theorem Resource.follow?_of_ofJson {fields : Dict Json} {r : Resource} {path : FieldPath}
    (h : ofJson (.object fields) = .ok r) (hsorted : fields.Sorted) (hpath : path ≠ [])
    (houtside : path.OutsideHeader) : r.encode.follow? path = (Json.object fields).follow? path := by
  cases path with
  | nil => exact absurd rfl hpath
  | cons segment rest =>
    cases segment with
    | index position => rfl
    | field name =>
      have hname : name ∉ headerNames := fun hmem => houtside name hmem rfl
      obtain ⟨-, hproper, hstands⟩ := of_ofJson h hsorted
      have hsame : r.encode.field? name = fields.get? name :=
        (hproper.field?_body hname).trans (hstands.body name hname)
      have hencode : r.encode.follow? (.field name :: rest) =
          ((r.encode.field? name).getD .null).follow? rest := Json.follow?_object _ name rest
      rw [hencode, hsame, Json.follow?_object]

namespace Patch

variable {source? : PatchType → Option Json} {early late patches : List Patch} {p : Patch}
  {source v : Json} {path : FieldPath} {r r' : Resource}

/-! ### The form that was patched -/

/-- Outside of the header, a resource to which patches were applied reads as its patched form. -/
theorem copied_of_applyTo (h : applyTo source? patches r = .ok r') :
    ∃ form, copyFields source? 0 patches r.encode = .ok form ∧
      ∀ path : FieldPath, path ≠ [] → path.OutsideHeader →
        r'.encode.follow? path = form.follow? path := by
  obtain ⟨form, hform, hread⟩ | ⟨hnone, rfl⟩ := applyTo_eq_ok h
  · obtain ⟨-, fields, hfields, hsorted, -⟩ :=
      Json.writeAll_object writings_ne_nil (copyFields_iff.mp hform).2
    obtain rfl := Option.some.inj hfields
    exact ⟨_, hform, fun path => Resource.follow?_of_ofJson hread (hsorted r.encode_sorted)⟩
  · have hwritings : writings source? patches = [] :=
      List.filterMap_eq_nil_iff.mpr fun p hp => writing?_of_none (hnone p hp)
    refine ⟨r'.encode, copyFields_iff.mpr ⟨fun p hp source hsource => ?_, ?_⟩, fun _ _ _ => rfl⟩
    · rw [hnone p hp] at hsource
      cases hsource
    · rw [hwritings]
      rfl

/-- What a patch copied is read in the resource, if the later patches leave it alone. -/
theorem Copies.follow?_applied (hcopies : p.Copies source v path) (hp : source? p.type = some source)
    (hpath : path ≠ []) (houtside : path.OutsideHeader) (halone : LeaveAlone source? late path)
    (h : applyTo source? (early ++ p :: late) r = .ok r') :
    r'.encode.follow? path = .ok (some v) := by
  obtain ⟨form, hform, hread⟩ := copied_of_applyTo h
  rw [hread path hpath houtside]
  exact hcopies.follow? hp halone hform

/-- Where all that is written parts from a path, the resource is read as before. -/
theorem follow?_applied_of_diverge (hpath : path ≠ []) (houtside : path.OutsideHeader)
    (hdiverge : ∀ w ∈ writings source? patches, w.path.Diverge path)
    (h : applyTo source? patches r = .ok r') : r'.encode.follow? path = r.encode.follow? path := by
  obtain ⟨form, hform, hread⟩ := copied_of_applyTo h
  rw [hread path hpath houtside]
  refine Json.writeAll_keeps (I := (·.follow? path = r.encode.follow? path))
    (copyFields_iff.mp hform).2 rfl fun w hw before after hbefore hwrite => ?_
  exact (Json.follow?_write_of_diverge (hdiverge w hw) hwrite).trans hbefore

/-! ### Patches that cannot be applied -/

/-- A patch does not say what it copies, or needs a value that is not there. -/
def Lacks (p : Patch) (source : Json) : Prop :=
  p.fromFieldPath = none ∨
    p.sourceRequired = true ∧ ∃ origin, p.fromFieldPath = some origin ∧ source.get? origin = .ok none

/-- Nothing is provided for a patch that lacks something. -/
theorem Lacks.not_provided (h : p.Lacks source) (hp : source? p.type = some source) :
    ¬ p.Provided source? := by
  intro hprovided
  obtain ⟨v, path, origin, horigin, hread, -⟩ | ⟨origin, horigin, -, hoptional⟩ :=
    hprovided source hp
  · obtain hnone | ⟨-, origin', horigin', hread'⟩ := h
    · rw [hnone] at horigin
      cases horigin
    · obtain rfl := Option.some.inj (horigin.symm.trans horigin')
      rw [hread] at hread'
      cases hread'
  · obtain hnone | ⟨hrequired, -⟩ := h
    · rw [hnone] at horigin
      cases horigin
    · rw [hrequired] at hoptional
      cases hoptional

/-- Patches cannot be applied if one of them lacks something. -/
theorem applyTo_fails (h : p.Lacks source) (hp : source? p.type = some source) (hmem : p ∈ patches)
    (r : Resource) : ∃ e, applyTo source? patches r = .error e := by
  cases happlied : applyTo source? patches r with
  | error e => exact ⟨e, rfl⟩
  | ok r' =>
    obtain ⟨form, hform, -⟩ := copied_of_applyTo happlied
    exact absurd ((copyFields_iff.mp hform).1 p hmem) (h.not_provided hp)

/-! ### In place -/

section

variable {α β ε σ : Type}

/-- What reads the state first runs with the state. -/
theorem run_get (next : σ → ExceptT ε (StateM σ) β) (s : σ) :
    (get >>= next).run.run s = (next s).run.run s := rfl

/-- What needs a result runs with the result, or ends with its error and leaves the state alone. -/
theorem run_ofExcept (result : Except ε α) (next : α → ExceptT ε (StateM σ) β) (s : σ) :
    (MonadExcept.ofExcept result >>= next).run.run s =
      match result with
      | .ok a => (next a).run.run s
      | .error e => (.error e, s) := by
  cases result <;> rfl

end

/-- In place, a resource becomes the patched one, or stays as it is if the patches cannot be
applied. -/
theorem applyInPlace_eq (source? : PatchType → Option Json) (patches : List Patch) (r : Resource) :
    (applyInPlace source? patches).run.run r =
      match applyTo source? patches r with
      | .ok r' => (.ok (), r')
      | .error e => (.error e, r) := by
  unfold applyInPlace applyTo
  split
  · rw [run_get, run_ofExcept]
    cases copyFields source? 0 patches r.encode with
    | error e => rfl
    | ok form =>
      refine (run_ofExcept ..).trans ?_
      simp only [bind, Except.bind]
      cases Resource.ofJson form <;> rfl
  · rfl

/-- Patches are applied to a composed resource in place. If that fails, the resource is as it was,
and it does fail if a patch lacks what it copies. If it succeeds, then what a patch copied outside of
the header is read there, if the later patches leave it alone; and whatever lies outside of the
header and parts from all that was written, where both have a field or both an index, is read as
before. -/
theorem applyInPlace_effects (patches : List Patch) (composite composed : Resource)
    (environment : Json) :
    let sources := composedSource composite environment
    let (outcome, after) := (applyInPlace sources patches).run.run composed
    applyToComposed patches composite environment composed = outcome.map (fun _ => after) ∧
      (∀ e, outcome = .error e → after = composed) ∧
      (outcome = .ok () →
        (∀ early p late source v path text, patches = early ++ p :: late →
          sources p.type = some source → p.Copies source v path → path.OutsideHeader →
          LeaveAlone sources late path → FieldPath.parse text = .ok path →
          after.encode.get? text = .ok (some v)) ∧
        ∀ text path, FieldPath.parse text = .ok path → path.OutsideHeader →
          (∀ w ∈ writings sources patches, w.path.Diverge path) →
          after.encode.get? text = composed.encode.get? text) ∧
      ∀ p ∈ patches, ∀ source, sources p.type = some source → p.Lacks source →
        ∃ e, outcome = .error e := by
  intro sources
  rw [applyInPlace_eq]
  have hne {text : String} {path : FieldPath} (hparse : FieldPath.parse text = .ok path) :
      path ≠ [] := by
    rintro rfl
    exact FieldPath.parse_ne_nil text hparse
  cases happlied : applyTo sources patches composed with
  | error e =>
    exact ⟨happlied, fun _ _ => rfl, nofun, fun _ _ _ _ _ => ⟨e, rfl⟩⟩
  | ok after =>
    refine ⟨happlied, nofun, fun _ => ⟨?_, ?_⟩, fun p hmem source hp hlacks => ?_⟩
    · rintro early p late source v path text rfl hp hcopies houtside halone hparse
      rw [Json.get?_of_parse hparse,
        hcopies.follow?_applied hp (hne hparse) houtside halone happlied]
      rfl
    · intro text path hparse houtside hdiverge
      rw [Json.get?_of_parse hparse, Json.get?_of_parse hparse,
        follow?_applied_of_diverge (hne hparse) houtside hdiverge happlied]
    · obtain ⟨e, hfails⟩ := applyTo_fails hlacks hp hmem composed
      rw [happlied] at hfails
      cases hfails

/-- Two patches fill in the spec and leave the status alone. With a third, which needs what is not
there, nothing happens. -/
theorem region_applied :
    let composite : Resource := {
      typeMeta := some ⟨"v1", "Ranch"⟩, body := [("spec", .object [("region", .string "north")])] }
    let composed : Resource := {
      typeMeta := some ⟨"v1", "Barn"⟩, body := [("status", .object [("doors", .int 2)])] }
    let environment : Json := .object [("zone", .string "a")]
    let region : Patch := {
      fromFieldPath := some "spec.region", toFieldPath := some "spec.at.region" }
    let zone : Patch := {
      type := .fromEnvironment, fromFieldPath := some "zone", toFieldPath := some "spec.at.zone" }
    let owner : Patch := { fromFieldPath := some "spec.owner", policy := some .required }
    let run (patches : List Patch) : Except CompositionError Unit × Resource :=
      (applyInPlace (composedSource composite environment) patches).run.run composed
    (run [region, zone]).1 = .ok () ∧
      (run [region, zone]).2.encode.get? "spec.at.region" = .ok (some (.string "north")) ∧
      (run [region, zone]).2.encode.get? "status.doors" = composed.encode.get? "status.doors" ∧
      ∃ e, run [region, zone, owner] = (.error e, composed) := by
  intro composite composed environment region zone owner run
  have hran : (run [region, zone]).1 = .ok () := by decide +kernel
  have hregion : region.Copies composite.encode (.string "north")
      [.field "spec", .field "at", .field "region"] :=
    ⟨"spec.region", rfl, by decide, by decide⟩
  have hzone : LeaveAlone (composedSource composite environment) [zone]
      [.field "spec", .field "at", .field "region"] := leaveAlone_iff.mpr (by decide)
  obtain ⟨-, -, hok, -⟩ := applyInPlace_effects [region, zone] composite composed environment
  obtain ⟨hread, hkept⟩ := hok hran
  obtain ⟨-, hfailed, -, hfails⟩ :=
    applyInPlace_effects [region, zone, owner] composite composed environment
  obtain ⟨e, he⟩ := hfails owner (by simp) composite.encode rfl (.inr ⟨rfl, "spec.owner", rfl, rfl⟩)
  refine ⟨hran, ?_, ?_, e, Prod.ext he (hfailed e he)⟩
  · exact hread [] region [zone] composite.encode _ _ _ rfl rfl hregion (by decide) hzone rfl
  · exact hkept _ _ rfl (by decide) (by decide)

end Patch

end ResourceComposition
