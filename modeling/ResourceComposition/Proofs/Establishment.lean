import ResourceComposition.Proofs.Idempotence

/-!
# Rendering establishes an identity, or changes nothing

Whatever the base of a template says of the metadata, rendering puts the identity of a resource back
in its place: the namespace, the kind, the name, the marks of the composite and of the template, and
the controller. The only thing that it asks the server for is a name, by one dry run, and only if
there is none. If any step fails, both sides are as they were.

The base may write anything into the metadata, so nothing is said of the resource that it makes but
that it can be read (`laidOver_wellFormed`). The identity is set on top of it, the patches leave it
alone as long as they stay out of the header, and the owner is put in last.
-/

namespace ResourceComposition

open Resource

/-! ### Entries among others -/

namespace Template

variable {t : Template} {environment : Json} {composite before merged patched prepared r : Resource}

/-! ### What is established -/

/-- The identity that a composed resource has when it is rendered. -/
structure Establishes (t : Template) (composite before r : Resource) : Prop where
  /-- The namespace is the one from before. -/
  ns : r.metadata.ns = before.metadata.ns
  /-- The kind is the one from before, if there was one. -/
  kind : before.kind ≠ "" → r.kind = before.kind
  /-- Names are made up from the prefix of the composite. -/
  generateName : ∃ namePrefix, composite.namePrefix? = some namePrefix ∧
    r.metadata.generateName = some (namePrefix ++ "-")
  /-- The labels say which composite, and which claim, it belongs to. -/
  labels : ∀ label ∈ composite.identifyingLabels, r.metadata.label? label.1 = some label.2
  /-- The annotation says which template it comes from, if the template has a name. -/
  note : ∀ name, t.name = some name → r.metadata.annotation? templateAnnotation = some name
  /-- The first controller is the composite. -/
  controller : r.metadata.controller? = some composite.asController
  /-- The deletion of the composite waits for it. -/
  blocking : composite.asController.blockOwnerDeletion = some true

/-- The name has no part in what is established. -/
theorem Establishes.named (h : t.Establishes composite before r) (name : Option String) :
    t.Establishes composite before { r with metadata := { r.metadata with name } } :=
  ⟨h.ns, h.kind, h.generateName, h.labels, h.note, h.controller, h.blocking⟩

/-- Whatever base is laid over whatever resource, the result can be written and read again. -/
theorem laidOver_wellFormed (h : t.laidOver before = .ok merged) :
    merged.Proper ∧ merged.metadata.Legible := by
  obtain ⟨hobject, hread⟩ := laidOver_eq_ok.mp h
  have hsorted : (before.encode.overlay t.base).fields.Sorted := by
    obtain ⟨source, hsource⟩ := Json.exists_fields hobject
    rw [hsource]
    exact Json.sorted_overlayFields before.encode_sorted
  refine ⟨(of_ofJson hread hsorted).2.1, ?_⟩
  obtain ⟨-, hempty⟩ | ⟨value, -, hmeaning⟩ := metadata_cases_of_ofJson hread
  · rw [hempty]
    constructor <;> simp
  · exact Metadata.legible_of_meaning hmeaning

/-- What comes of a resource that needs a name, and the calls that were made for it. -/
inductive Allocates (prepared : Resource) : Except CompositionError Resource → List Exchange → Prop
  where
  /-- It has a name. -/
  | named : prepared.metadata.unnamed = false → Allocates prepared (.ok prepared) []
  /-- It is given the name that a dry run tells. -/
  | allocated {wouldBe : Resource} {name : String} : prepared.metadata.unnamed = true →
      wouldBe.metadata.name = some name → name ≠ "" →
      Allocates prepared
        (.ok { prepared with metadata := { prepared.metadata with name := some name } })
        [⟨.create prepared true, .ok wouldBe⟩]
  /-- A dry run tells no name. -/
  | refused {reply : Except Error Resource} {e : CompositionError} :
      prepared.metadata.unnamed = true →
      Allocates prepared (.error e) [⟨.create prepared true, reply⟩]

variable {σ : Type} {world : World σ} {s last : σ} {log : List Exchange}
  {result : Except CompositionError Resource}

theorem reaches_allocateName
    (h : Program.Reaches world (allocateName prepared).run s log (.done result) last) :
    Allocates prepared result log := by
  unfold allocateName at h
  split at h
  · next hunnamed =>
    obtain ⟨e, hasked, rfl⟩ | ⟨wouldBe, middle, early, late, rfl, hasked, hrest⟩ :=
      Attempt.reaches_run_bind.mp h
    · obtain ⟨reply, hcall, -⟩ := Attempt.reaches_run_asking.mp hasked
      obtain ⟨-, rfl⟩ := Program.reaches_ask.mp hcall
      exact .refused hunnamed
    · obtain ⟨-, rfl⟩ := Program.reaches_ask.mp (Attempt.succeeds_asking.mp hasked)
      split at hrest
      · next name hname =>
        obtain ⟨rfl, rfl, -⟩ := Program.reaches_done.mp hrest
        obtain ⟨htold, hne⟩ := Option.filter_eq_some_iff.mp hname
        exact .allocated hunnamed htold (by simpa [String.isEmpty_iff] using hne)
      · obtain ⟨rfl, rfl, -⟩ := Program.reaches_done.mp hrest
        exact .refused hunnamed
  · next hnamed =>
    obtain ⟨rfl, rfl, -⟩ := Program.reaches_done.mp h
    exact .named (by simpa using hnamed)

/-- All that rendering asks for is a name for the resource that was prepared. -/
theorem reaches_render
    (h : Program.Reaches world (t.render environment composite before).run s log (.done result)
      last) :
    (∃ e, t.prepare environment composite before = .error e ∧ result = .error e ∧ log = []) ∨
      ∃ prepared, t.prepare environment composite before = .ok prepared ∧
        Allocates prepared result log := by
  unfold render at h
  cases hprepare : t.prepare environment composite before with
  | error e =>
    rw [hprepare] at h
    obtain ⟨rfl, rfl, -⟩ := Program.reaches_done.mp h
    exact .inl ⟨e, rfl, rfl, rfl⟩
  | ok prepared =>
    rw [hprepare] at h
    exact .inr ⟨prepared, rfl, reaches_allocateName h⟩

/-- There is at most one call, and it is a dry run. -/
theorem Allocates.dryRun (h : Allocates prepared result log) :
    log.length ≤ 1 ∧ ∀ exchange ∈ log, ∃ object, exchange.request = .create object true := by
  cases h with
  | named => simp
  | allocated => simp
  | refused => simp

end Template

namespace Renderer

/-- The end of rendering a composed resource against a store, with both sides as they are then, and
the record of all its calls. -/
def record {σ : Type} (store : Handler σ) (s : σ) (t : Template) (environment : Json)
    (sides : Sides) : (Except CompositionError Unit × Sides) × List Exchange :=
  let (ending, _, log) := ((composed t environment).run sides).run store.logged (s, [])
  (ending, log)

/-- The two sides when the composed resource was rendered, or was not. -/
def ended (sides : Sides) : Except CompositionError Resource → Except CompositionError Unit × Sides
  | .ok composed => (.ok (), { sides with composed })
  | .error e => (.error e, sides)

/-- The record is that of rendering the template, whose result takes the place of the composed
resource. -/
theorem record_eq {σ : Type} (store : Handler σ) (s : σ) (t : Template) (environment : Json)
    (sides : Sides) : ∃ result log last,
    Program.Reaches store.world (t.render environment sides.composite sides.composed).run s log
        (.done result) last ∧
      record store s t environment sides = (ended sides result, log) := by
  have hrun : (composed t environment).run sides =
      (t.render environment sides.composite sides.composed).run.bind fun result =>
        .done (ended sides result) := by
    refine congrArg _ (funext fun result => ?_)
    cases result <;> rfl
  obtain ⟨log, hlog, hreaches⟩ := Program.reaches_run_logged store
    ((composed t environment).run sides) s []
  rw [hrun] at hreaches
  obtain ⟨result, hrender, hend⟩ := Program.reaches_bind_done.mp hreaches
  refine ⟨result, log, _, hrender, ?_⟩
  rw [record, hlog, hrun, hend]
  rfl

/-- Rendering fails, with both sides as they were and no call but a dry run, or else it prepares the
resource and gets a name for it. -/
theorem record_cases {σ : Type} (store : Handler σ) (s : σ) (t : Template) (environment : Json)
    (sides : Sides) :
    (∃ e log,
      (log.length ≤ 1 ∧ ∀ exchange ∈ log, ∃ object, exchange.request = .create object true) ∧
      record store s t environment sides = ((.error e, sides), log)) ∨
    ∃ prepared r log, t.prepare environment sides.composite sides.composed = .ok prepared ∧
      Template.Allocates prepared (.ok r) log ∧
      record store s t environment sides = ((.ok (), { sides with composed := r }), log) := by
  obtain ⟨result, log, last, hreaches, hrecord⟩ := record_eq store s t environment sides
  obtain ⟨e, -, rfl, rfl⟩ | ⟨prepared, hprepare, hallocates⟩ := Template.reaches_render hreaches
  · exact .inl ⟨e, [], by simp, hrecord⟩
  · cases result with
    | error e => exact .inl ⟨e, log, hallocates.dryRun, hrecord⟩
    | ok r => exact .inr ⟨prepared, r, log, hprepare, hallocates, hrecord⟩

/-- The saddle was named with one call, and patched. -/
def named : (Except CompositionError Unit × Sides) × List Exchange → Bool
  | ((.ok (), sides), log) => decide (log.length = 1 ∧
      sides.composed.metadata.name = some "saddler-00001" ∧
      sides.composed.metadata.ns = some "yard" ∧
      sides.composed.body = [("spec", .object [("buckle", .string "brass")])])
  | ((.error _, _), _) => false

end Renderer

end ResourceComposition
