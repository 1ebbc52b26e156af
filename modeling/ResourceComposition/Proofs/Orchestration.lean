import ResourceComposition.Proofs.Course
import ResourceComposition.Proofs.Extraction
import ResourceComposition.Proofs.Paths
import ResourceComposition.Proofs.References
import ResourceComposition.Store.Memory

/-!
# The two loops of a composition

A composition goes through its templates twice, and what it does in between and in the end is put
together from what came of the turns. That the turns and their results stay together, whatever the
collaborators do and whatever the world replies, is said here: both loops are chains of turns, each
of which begins with the composite and the state that the one before it left behind (`Chain`), and
`Orchestrated` says how the outcome, the references and the record of a composition follow from the
two chains.

Collaborators may make calls of their own and may change the composite. So nothing is said of single
calls; the record is cut where one step of the composition gives way to the next.
-/

namespace ResourceComposition

/-! ### Steps one after another -/

/-- Steps are taken for some items, first to last. Each has a record of its own and a result, and
begins with the composite and the state that the one before it left behind. -/
inductive Chain {σ α β : Type} (step : α → Resource → σ → List Exchange → β → Resource → σ → Prop) :
    List α → Resource → σ → List (List Exchange) → List β → Resource → σ → Prop where
  /-- Nothing is left to do. -/
  | nil {composite : Resource} {s : σ} : Chain step [] composite s [] [] composite s
  /-- One step, and the rest. -/
  | cons {a : α} {rest : List α} {composite composite₁ composite' : Resource} {s middle last : σ}
      {log : List Exchange} {logs : List (List Exchange)} {b : β} {results : List β} :
      step a composite s log b composite₁ middle →
      Chain step rest composite₁ middle logs results composite' last →
      Chain step (a :: rest) composite s (log :: logs) (b :: results) composite' last

namespace Resource

variable {c c' : Resource} {references : List Reference}

/-- The references that were set are those that are read. -/
theorem resourceRefs_of_setResourceRefs (h : c.setResourceRefs references = .ok c') :
    c'.resourceRefs = .ok references := by
  obtain ⟨fields, -, rfl⟩ := (setField_eq_ok parse_referencesPath).mp h
  have hwritten : (Json.object (fields.insert "resourceRefs"
      (.array (references.map Reference.encode)))).field? "resourceRefs" =
        some (.array (references.map Reference.encode)) := Dict.get?_insert_self ..
  rw [resourceRefs_eq_ok, spec, Dict.get?_insert_self, Json.heldReferences?, Option.getD_some,
    Json.follow?_field hwritten]
  exact Decode.list_map Reference.meaning_encode references

end Resource

/-- What a collaborator extracts is a map: of each key it has one value. -/
def Collaborators.ExtractsMaps (c : Collaborators) : Prop :=
  ∀ object fetched wanted details,
    c.extractDetails object fetched wanted = .ok details → details.Sorted

namespace Composition

open Composing

variable {σ : Type} {world : World σ} {c : Collaborators} {request : CompositionRequest}
  {environment : Json} {composite composite' : Resource} {s last : σ} {log : List Exchange}

/-! ### The turns -/

/-- What comes of rendering: the resource as it was rendered, or a template that is skipped. -/
def renditionOf (composed : Resource) : Except CompositionError Unit → Rendition
  | .ok () => .rendered composed
  | .error e => .skipped e

/-- A turn of the first loop. The resource of an association is observed and rendered; if that
fails, the template is skipped, except if another controller has the resource. -/
def RendersIn (world : World σ) (c : Collaborators) (environment : Json) (a : Association)
    (composite : Resource) (s : σ) (log : List Exchange) (rendition : Rendition)
    (composite' : Resource) (last : σ) : Prop :=
  ∃ before middle observing rendering result composed, log = observing ++ rendering ∧
    (observe a.reference).Succeeds world s observing before middle ∧
    Program.Reaches world ((c.composedRenderer a.template environment).run ⟨composite, before⟩)
      middle rendering (.done (result, ⟨composite', composed⟩)) last ∧
    (∀ e, result = .error e → e.isIdentityConflict = false) ∧
    rendition = renditionOf composed result

theorem succeeds_rendering {render : ExceptT CompositionError (StateT Sides Program) Unit}
    {before : Resource} {result : Except CompositionError Resource} :
    (rendering render before).Succeeds world composite s log result composite' last ↔
      ∃ ending composed, Program.Reaches world (render.run ⟨composite, before⟩) s log
          (.done (ending, ⟨composite', composed⟩)) last ∧
        result = ending.map fun _ => composed := by
  refine Program.reaches_bind_done.trans ⟨?_, ?_⟩
  · rintro ⟨⟨ending, sides⟩, h, hend⟩
    obtain ⟨hresult, rfl⟩ := Prod.mk.inj hend
    exact ⟨ending, sides.composed, h, (Except.ok.inj hresult).symm⟩
  · rintro ⟨ending, composed, h, rfl⟩
    exact ⟨(ending, ⟨composite', composed⟩), h, rfl⟩

theorem renderOne_renders {a : Association} {rendition : Rendition}
    (h : (renderOne c environment a).Succeeds world composite s log rendition composite' last) :
    RendersIn world c environment a composite s log rendition composite' last := by
  obtain ⟨before, middle, _, observing, late, rfl, hduring, hrest⟩ := succeeds_bind.mp h
  obtain ⟨rfl, hobserve⟩ := succeeds_during.mp hduring
  obtain ⟨result, _, _, rendering, late, rfl, hrendering, hend⟩ := succeeds_bind.mp hrest
  obtain ⟨ending, composed, hrender, rfl⟩ := succeeds_rendering.mp hrendering
  cases ending with
  | ok =>
    obtain ⟨rfl, rfl, rfl, rfl⟩ := succeeds_pure.mp hend
    exact ⟨before, middle, observing, rendering, _, composed, by simp, hobserve, hrender, nofun, rfl⟩
  | error e =>
    dsimp only [Except.map] at hend
    split at hend
    · exact absurd hend succeeds_throw
    · next hconflict =>
      obtain ⟨rfl, rfl, rfl, rfl⟩ := succeeds_pure.mp hend
      refine ⟨before, middle, observing, rendering, _, composed, by simp, hobserve, hrender, ?_, rfl⟩
      rintro e' ⟨⟩
      simpa using hconflict

/-- The first loop is a chain of turns, one for each association. -/
theorem renderAll_chain {associations : List Association}
    {renditions : List (Association × Rendition)}
    (h : (renderAll c environment associations).Succeeds world composite s log renditions
      composite' last) :
    ∃ logs, log = logs.flatten ∧ renditions.map (·.1) = associations ∧
      Chain (RendersIn world c environment) associations composite s logs (renditions.map (·.2))
        composite' last := by
  induction associations generalizing composite s log renditions with
  | nil =>
    obtain ⟨rfl, rfl, rfl, rfl⟩ := succeeds_pure.mp h
    exact ⟨[], rfl, rfl, .nil⟩
  | cons a rest ih =>
    obtain ⟨rendition, middle, composite₁, early, late, rfl, hone, hrest⟩ := succeeds_bind.mp h
    obtain ⟨others, _, _, late, done, rfl, hall, hend⟩ := succeeds_bind.mp hrest
    obtain ⟨rfl, rfl, rfl, rfl⟩ := succeeds_pure.mp hend
    obtain ⟨logs, rfl, hassociations, hchain⟩ := ih hall
    exact ⟨early :: logs, by simp, by simp [hassociations], .cons (renderOne_renders hone) hchain⟩

/-- A turn of the second loop. The composite is rendered from a resource, the resource is applied,
once, and what came of it gives the connection details and the entry of the outcome. -/
def SettlesIn (world : World σ) (c : Collaborators) (environment : Json) (made : Template × Resource)
    (composite : Resource) (s : σ) (log : List Exchange)
    (settled : ComposedResource × ConnectionDetails) (composite' : Resource) (last : σ) : Prop :=
  ∃ composed fetched patching applying fetching patched applied,
    log = patching ++ applying ++ fetching ∧
    Program.Reaches world ((c.compositeRenderer made.1 environment).run ⟨composite, made.2⟩) s patching
      (.done (.ok (), ⟨composite', composed⟩)) patched ∧
    composed.apply.Succeeds world patched applying settled.1.object applied ∧
    (c.fetchDetails settled.1.object).Succeeds world applied fetching fetched last ∧
    c.extractDetails settled.1.object fetched made.1.connectionDetails = .ok settled.2 ∧
    c.checkReadiness settled.1.object made.1.readinessChecks = .ok settled.1.ready ∧
    settled.1.templateName = made.1.name.getD ""

theorem settleOne_settles {t : Template} {r : Resource}
    {settled : ComposedResource × ConnectionDetails}
    (h : (settleOne c environment t r).Succeeds world composite s log settled composite' last) :
    SettlesIn world c environment (t, r) composite s log settled composite' last := by
  obtain ⟨result, patched, composite₁, patching, late, rfl, hrendering, hrest⟩ := succeeds_bind.mp h
  obtain ⟨ending, composed, hrender, rfl⟩ := succeeds_rendering.mp hrendering
  cases ending with
  | error e => exact absurd hrest succeeds_throw
  | ok =>
    obtain ⟨object, applied, _, applying, late, rfl, hduring, hbody⟩ := succeeds_bind.mp hrest
    obtain ⟨rfl, happly⟩ := succeeds_during.mp hduring
    obtain ⟨fetched, _, _, fetching, late₁, rfl, hfetching, hrest₁⟩ := succeeds_bind.mp hbody
    obtain ⟨rfl, hfetch⟩ := succeeds_during.mp hfetching
    obtain ⟨details, _, _, _, late₂, rfl, hextracting, hrest₂⟩ := succeeds_bind.mp hrest₁
    obtain ⟨rfl, hextracted⟩ := succeeds_during.mp hextracting
    obtain ⟨hextract, rfl, rfl⟩ := Attempt.succeeds_ofExcept.mp hextracted
    obtain ⟨ready, _, _, _, late₃, rfl, hchecking, hend⟩ := succeeds_bind.mp hrest₂
    obtain ⟨rfl, hchecked⟩ := succeeds_during.mp hchecking
    obtain ⟨hready, rfl, rfl⟩ := Attempt.succeeds_ofExcept.mp hchecked
    obtain ⟨rfl, rfl, rfl, rfl⟩ := succeeds_pure.mp hend
    exact ⟨composed, fetched, patching, applying, fetching, patched, applied, by simp, hrender,
      happly, hfetch, hextract, hready, rfl⟩

/-- The second loop is a chain of turns, one for each resource that was rendered. -/
theorem settleAll_chain {made : List (Template × Resource)}
    {settled : List (ComposedResource × ConnectionDetails)}
    (h : (settleAll c environment made).Succeeds world composite s log settled composite' last) :
    ∃ logs, log = logs.flatten ∧
      Chain (SettlesIn world c environment) made composite s logs settled composite' last := by
  induction made generalizing composite s log settled with
  | nil =>
    obtain ⟨rfl, rfl, rfl, rfl⟩ := succeeds_pure.mp h
    exact ⟨[], rfl, .nil⟩
  | cons first rest ih =>
    obtain ⟨one, middle, composite₁, early, late, rfl, hone, hrest⟩ := succeeds_bind.mp h
    obtain ⟨others, _, _, late, done, rfl, hall, hend⟩ := succeeds_bind.mp hrest
    obtain ⟨rfl, rfl, rfl, rfl⟩ := succeeds_pure.mp hend
    obtain ⟨logs, rfl, hchain⟩ := ih hall
    exact ⟨early :: logs, by simp, .cons (settleOne_settles hone) hchain⟩

/-! ### What is put together from the turns -/

/-- The report on an association at a place: a warning if its template was skipped. -/
def skipReport : (Association × Rendition) × Nat → Option Event
  | ((_, .rendered _), _) => none
  | ((a, .skipped cause), place) => some (warning (a.template.displayName place) cause)

theorem warnings_eq (place : Nat) (renditions : List (Association × Rendition)) :
    warnings place renditions = (renditions.zipIdx place).filterMap skipReport := by
  induction renditions generalizing place with
  | nil => rfl
  | cons first rest ih =>
    obtain ⟨a, composed | cause⟩ := first
    · rw [warnings, ih, List.zipIdx_cons, List.filterMap_cons_none rfl]
    · rw [warnings, ih, List.zipIdx_cons, List.filterMap_cons]
      rfl

/-- Of the values of a key in several maps, the one in the last map that has the key remains. -/
theorem get?_foldl_insertAll {entries : List (ComposedResource × ConnectionDetails)}
    {details : ConnectionDetails} (h : ∀ entry ∈ entries, entry.2.Sorted) (key : String) :
    (entries.foldl (fun details entry => details.insertAll entry.2) details).get? key =
      (entries.reverse.findSome? fun entry => entry.2.get? key).or (details.get? key) := by
  induction entries generalizing details with
  | nil => rfl
  | cons first rest ih =>
    obtain ⟨hfirst, hrest⟩ := List.forall_mem_cons.mp h
    rw [List.foldl_cons, ih hrest, Dict.get?_insertAll hfirst, List.reverse_cons,
      List.findSome?_append, Option.or_assoc]
    simp

/-! ### The whole composition -/

/-- What went on in a composition, from step to step. -/
structure Orchestration (σ : Type) where
  /-- The templates, with their patch sets in place. -/
  templates : List Template
  /-- The associations of the templates, each with what became of it. -/
  renditions : List (Association × Rendition)
  /-- The composite with the references to all resources. -/
  referring : Resource
  /-- The composite as it was written with these references. -/
  written : Resource
  /-- The entries of the resources that were rendered, with their connection details. -/
  settlements : List (ComposedResource × ConnectionDetails)
  /-- The composite before it is written in the end. -/
  patched : Resource
  /-- The composite after all renderings of the first loop. -/
  planned : Resource
  /-- The record of the association. -/
  associating : List Exchange
  /-- The records of the turns of the first loop. -/
  rendering : List (List Exchange)
  /-- The record of writing the composite with its references. -/
  writing : List Exchange
  /-- The records of the turns of the second loop. -/
  settling : List (List Exchange)
  /-- The record of writing the composite in the end. -/
  persisting : List Exchange
  /-- The state after the association. -/
  afterAssociating : σ
  /-- The state after the first loop. -/
  afterRendering : σ
  /-- The state after the composite was written with its references. -/
  afterWriting : σ
  /-- The state after the second loop. -/
  afterSettling : σ

namespace Orchestration

/-- A composition that succeeded went from step to step, and its outcome is put together from what came
of the steps. -/
structure Explains (o : Orchestration σ) (world : World σ) (c : Collaborators)
    (request : CompositionRequest) (composite : Resource) (s : σ) (log : List Exchange)
    (outcome : Outcome) (composite' : Resource) (last : σ) : Prop where
  /-- The record is that of the steps, one after another. -/
  record : log = o.associating ++ (o.rendering.flatten ++ (o.writing ++
    (o.settling.flatten ++ o.persisting)))
  /-- The patch sets were put in place. -/
  inlined : request.revision.inlinedTemplates = .ok o.templates
  /-- The templates were associated. -/
  associated : (c.associate composite o.templates).Succeeds world s o.associating
    (o.renditions.map (·.1)) o.afterAssociating
  /-- Each association was rendered or skipped, in order. -/
  rendered : Chain (RendersIn world c request.environment) (o.renditions.map (·.1)) composite
    o.afterAssociating o.rendering (o.renditions.map (·.2)) o.planned o.afterRendering
  /-- The composite got the references of what was rendered, and those that skipped templates had. -/
  referring : o.planned.setResourceRefs (o.renditions.filterMap keptReference) = .ok o.referring
  /-- These references are read from it. -/
  references : o.referring.resourceRefs = .ok (o.renditions.filterMap keptReference)
  /-- With these references it was written, before any resource was applied. -/
  written : o.referring.apply.Succeeds world o.afterRendering o.writing o.written o.afterWriting
  /-- Each resource that was rendered was applied once, in order. -/
  settled : Chain (SettlesIn world c request.environment) (renderedOnly o.renditions) o.written
    o.afterWriting o.settling o.settlements o.patched o.afterSettling
  /-- The composite was written in the end. -/
  persisted : persistComposite.Succeeds world o.patched o.afterSettling o.persisting () composite' last
  /-- There is one warning for each association that was skipped, in order. -/
  events : outcome.events = o.renditions.zipIdx.filterMap skipReport
  /-- There is one entry for each association that was rendered, in order. -/
  composed : outcome.composed = o.settlements.map (·.1)
  /-- The entries carry the names of the templates. -/
  names : outcome.composed.map (·.templateName) =
    (renderedOnly o.renditions).map fun made => made.1.name.getD ""
  /-- The connection details have of each key the value in the last resource that has the key. -/
  details : ∀ key, outcome.connectionDetails.get? key =
    o.settlements.reverse.findSome? fun settled => settled.2.get? key

end Orchestration

theorem names_of_chain {made : List (Template × Resource)} {logs : List (List Exchange)}
    {settled : List (ComposedResource × ConnectionDetails)}
    (h : Chain (SettlesIn world c environment) made composite s logs settled composite' last) :
    (settled.map (·.1)).map (·.templateName) = made.map fun m => m.1.name.getD "" := by
  induction h with
  | nil => rfl
  | cons hfirst _ ih =>
    obtain ⟨_, _, _, _, _, _, _, -, -, -, -, -, -, hname⟩ := hfirst
    simp [ih, hname]

theorem sorted_of_chain {made : List (Template × Resource)} {logs : List (List Exchange)}
    {settled : List (ComposedResource × ConnectionDetails)} (hmaps : c.ExtractsMaps)
    (h : Chain (SettlesIn world c environment) made composite s logs settled composite' last) :
    ∀ entry ∈ settled, entry.2.Sorted := by
  induction h with
  | nil => simp
  | cons hfirst _ ih =>
    obtain ⟨_, _, _, _, _, _, _, -, -, -, -, hextract, -, -⟩ := hfirst
    exact List.forall_mem_cons.mpr ⟨hmaps _ _ _ _ hextract, ih⟩

/-- The law of a composition that succeeds, for arbitrary collaborators in an arbitrary world. -/
theorem compose_orchestrates {outcome : Outcome} (hmaps : c.ExtractsMaps)
    (h : (compose c request).Succeeds world composite s log outcome composite' last) :
    ∃ o : Orchestration σ, o.Explains world c request composite s log outcome composite' last := by
  obtain ⟨templates, _, _, _, acting, rfl, hinline, hrest⟩ := succeeds_bind.mp h
  obtain ⟨rfl, hresult⟩ := succeeds_during.mp hinline
  obtain ⟨hinlined, rfl, rfl⟩ := Attempt.succeeds_ofExcept.mp hresult
  obtain ⟨associations, associated, _, associating, acting, rfl, hduring, hrest₁⟩ :=
    succeeds_bind.mp (succeeds_get_bind.mp hrest)
  obtain ⟨rfl, hassociate⟩ := succeeds_during.mp hduring
  obtain ⟨renditions, rendered, planned, _, acting₁, rfl, hrender, hrest₂⟩ := succeeds_bind.mp hrest₁
  obtain ⟨rendering, rfl, rfl, hrendered⟩ := renderAll_chain hrender
  obtain ⟨_, written, stored, writing, acting₂, rfl, hpersist, hrest₃⟩ := succeeds_bind.mp hrest₂
  obtain ⟨referring, hset, hwritten⟩ := succeeds_persistReferences hpersist
  obtain ⟨settlements, settled, patched, _, acting₃, rfl, hsettle, hrest₄⟩ := succeeds_bind.mp hrest₃
  obtain ⟨settling, rfl, hsettled⟩ := settleAll_chain hsettle
  obtain ⟨_, _, _, persisting, _, rfl, hpersisted, hend⟩ := succeeds_bind.mp hrest₄
  obtain ⟨rfl, rfl, rfl, rfl⟩ := succeeds_pure.mp hend
  refine ⟨{
    templates, renditions, referring, written := stored, settlements, patched, planned, associating
    rendering, writing, settling, persisting, afterAssociating := associated
    afterRendering := rendered, afterWriting := written, afterSettling := settled }, {
    record := by simp
    inlined := hinlined
    associated := hassociate
    rendered := hrendered
    referring := hset
    references := Resource.resourceRefs_of_setResourceRefs hset
    written := hwritten
    settled := hsettled
    persisted := hpersisted
    events := warnings_eq 0 renditions
    composed := rfl
    names := names_of_chain hsettled
    details := fun key => ?_ }⟩
  rw [get?_foldl_insertAll (sorted_of_chain hmaps hsettled)]
  simp

/-! ### A potter with a broken mould -/

theorem standard_extractsMaps : Collaborators.standard.ExtractsMaps := fun _ _ _ _ h =>
  ConnectionDetail.sorted_extractFrom Dict.sorted_nil h

/-- A composite of pots. -/
def potter : Resource where
  typeMeta := some ⟨"v1", "Potter"⟩
  metadata := {
    name := some "potter", uid := some "u", labels := some [(Resource.prefixLabel, "potter")] }

/-- A template of a pot with a glaze. -/
def glazed (name glaze : String) : Template where
  name := some name
  base := .object [("apiVersion", .string "v1"), ("kind", .string "Pot")]
  connectionDetails := [{ name := some "glaze", value := some glaze }]
  readinessChecks := [{ type := .none }]

/-- A recipe of two pots, and between them something that cannot be rendered. -/
def firing : Revision where
  templates := [glazed "jug" "green", { name := some "mould" }, glazed "cup" "blue"]

/-- An end is the outcome of the firing: the mould was skipped, both pots were made, and of the glazes
the later counts. -/
def fired : Except CompositionError Outcome × Resource → Bool
  | (.ok outcome, _) =>
    decide (outcome.events.length = 1 ∧ outcome.composed.map (·.templateName) = ["jug", "cup"] ∧
      outcome.connectionDetails.get? "glaze" = some (Bytes.ofString "blue"))
  | _ => false

/-- The firing goes on as composition does. -/
theorem potter_orchestrates : ∃ log outcome composite' last,
    Collaborators.standard.ExtractsMaps ∧
    (compose .standard { revision := firing }).Succeeds Memory.handler.world potter
      (({} : Memory).insert potter) log outcome composite' last ∧
    (outcome.events.length = 1 ∧ outcome.composed.map (·.templateName) = ["jug", "cup"] ∧
      outcome.connectionDetails.get? "glaze" = some (Bytes.ofString "blue")) ∧
    ∃ o : Orchestration Memory, o.Explains Memory.handler.world .standard { revision := firing } potter
      (({} : Memory).insert potter) log outcome composite' last := by
  obtain ⟨log, ⟨_ | outcome, composite'⟩, last, hreaches, hcheck⟩ := Program.reaches_of_run
    Memory.handler ((compose .standard { revision := firing }).run potter)
    (({} : Memory).insert potter) (fun ending _ _ => fired ending) (by decide +kernel)
  · cases hcheck
  · exact ⟨log, outcome, composite', last, standard_extractsMaps, hreaches, of_decide_eq_true hcheck,
      compose_orchestrates standard_extractsMaps hreaches⟩

end Composition

end ResourceComposition
