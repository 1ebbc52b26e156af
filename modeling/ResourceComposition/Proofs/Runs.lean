import ResourceComposition.Proofs.Passes

/-!
# Runs of composition

A composite is composed again and again, each time from what is stored of it, with one revision or
another. A pass may end early at any call, by a failure or because its process is gone; the next one
starts from what is there then.

Whatever happens, no composed resource is lost and none is made twice: what the composite controls
is what it refers to, with one resource for a template at most. Only a store that denies an object
which it has can make a composite lose it; a composite takes such an object for gone.
-/

namespace ResourceComposition

open Resource

namespace Ledger

/-- A composite that is stored and has composed nothing yet. -/
structure Starts (s : Ledger) (composite : Resource) : Prop where
  /-- It is stored under its own reference. -/
  stored : s.memory.get composite.reference = .ok (some composite)
  /-- The fields of all objects in its form are in order. -/
  ordered : ∀ form, s.lookup? composite.key = some form → form.Ordered
  /-- It has an identifier. -/
  identified : composite.uid ≠ ""
  /-- It refers to nothing. -/
  unreferring : composite.resourceRefs = .ok []
  /-- It controls nothing. -/
  alone : ∀ key r, s.stored? key = some r → composite.controls r = false

/-- Passes of composition one after another in a world, each from the composite as it is stored, and
each with a revision of its own and as far as it got. -/
inductive Runs (world : World Ledger) (version : String → String) (reference : Reference) :
    Ledger → Ledger → Prop where
  /-- No pass. -/
  | refl (s : Ledger) : Runs world version reference s s
  /-- A pass after others. -/
  | pass {start s after : Ledger} {composite : Resource} {request : CompositionRequest}
      {log : List Exchange} {rest : Program (Except CompositionError Outcome × Resource)} :
      Runs world version reference start s →
      s.memory.get reference = .ok (some composite) →
      request.revision.Admissible version →
      Program.Reaches world ((Composition.compose .standard request).run composite) s log rest
        after →
      Runs world version reference start after

/-- What a composite controls is accounted for: the composite refers to it, and nothing is there
twice. -/
structure Accounted (composite : Resource) (references : List Reference) (s : Ledger) : Prop where
  /-- The composite is stored and holds the references. -/
  held : ∃ form, s.lookup? composite.key = some form ∧
    form.spec.heldReferences? = some references
  /-- The references are read from it. -/
  read : ∀ r, s.stored? composite.key = some r → r.resourceRefs = .ok references
  /-- No object is referred to twice. -/
  distinct : (references.map Reference.key).Nodup
  /-- What the composite controls, it refers to. -/
  referred : ∀ key r, s.stored? key = some r → composite.controls r = true →
    ∃ reference ∈ references, reference.key = key
  /-- What the composite controls names its template. -/
  templated : ∀ key r, s.stored? key = some r → composite.controls r = true →
    r.templateName?.isSome = true
  /-- No two objects that the composite controls are for one template. -/
  single : ∀ key key' r r', s.stored? key = some r → s.stored? key' = some r' →
    composite.controls r = true → composite.controls r' = true →
    r.templateName? = r'.templateName? → key = key'

variable {owner : Owner} {version : String → String} {still : Prop} {slots : List Slot}
  {world : World Ledger} {s start : Ledger} {composite : Resource}

theorem get_eq_ok {reference : Reference}
    (h : s.memory.get reference = .ok (some composite)) :
    ∃ form, s.lookup? reference.key = some form ∧ ofJson form = .ok composite := by
  unfold Memory.get at h
  cases hlookup : s.memory.lookup? reference.key with
  | none => simp [hlookup] at h
  | some form =>
    refine ⟨form, hlookup, ?_⟩
    simp only [hlookup] at h
    cases hread : ofJson form with
    | error e => simp [hread, Except.map] at h
    | ok read => simpa [hread, Except.map] using h

/-- A composite that has composed nothing yet is the owner of no slots. -/
theorem Starts.sound (h : s.Starts composite) (hnameable : composite.Nameable)
    (version : String → String) :
    ∃ owner : Owner, owner.Of composite ∧ s.Sound owner version False [] := by
  obtain ⟨form, hform, hread⟩ := get_eq_ok h.stored
  have hordered := h.ordered form hform
  obtain ⟨htype, hproper, hstands⟩ := of_ofJson hread hordered.sorted
  have huid : composite.metadata.uid = some composite.uid := by
    have := h.identified
    unfold Resource.uid at this ⊢
    cases huid : composite.metadata.uid <;> simp_all
  let owner : Owner :=
    { type := form.typing, name := composite.metadata.name, ns := composite.metadata.ns,
      uid := composite.uid, uid_ne := h.identified }
  have hfree : ¬ ControlledBy owner.uid composite.metadata.ownerReferences := fun hcontrolled => by
    have := (controls_iff rfl h.identified).mpr hcontrolled
    rw [h.alone _ composite (stored?_eq_some.mpr ⟨form, hform, hread⟩)] at this
    cases this
  have hidentity : owner.toIdentity.Of composite :=
    (Identity.On.read ⟨hordered.sorted, rfl, hstands.metadata.name.symm, hstands.metadata.ns.symm⟩
      hread).1
  have hof : owner.Of composite :=
    { hidentity with uid := huid, nameable := hnameable, free := hfree }
  have hon : owner.On form := {
    sorted := hordered.sorted
    type := rfl
    name := hstands.metadata.name.symm
    ns := hstands.metadata.ns.symm
    uid := hstands.metadata.uid.symm.trans huid
    nameable := fun hname => hstands.metadata.generateName.symm.trans
      ((Owner.nameable_iff hidentity).mp hnameable hname)
    free := hstands.metadata.owners ▸ hfree }
  have hspec : form.spec.Holds [] := by
    refine ⟨?_, hstands.spec ▸ resourceRefs_eq_ok.mp h.unreferring⟩
    unfold Json.spec
    cases hget : form.field? "spec" with
    | none => exact Dict.sorted_nil
    | some spec => exact (hordered.field? hget).sorted
  refine ⟨owner, hof, {
    composite := ⟨form, by rw [← hof.toOf.key]; exact hform, hon, hspec, False.elim⟩
    version := nofun, templates := .nil, names := .nil, given := nofun, apart := nofun
    held := nofun, full := nofun
    covered := fun key form r hlookup hread hcontrolled => ?_ }⟩
  have := hof.controls_iff.mpr hcontrolled
  rw [h.alone key r (stored?_eq_some.mpr ⟨form, hlookup, hread⟩)] at this
  cases this

/-- A pass starts from the composite as it is stored. -/
theorem Sound.read (h : s.Sound owner version still slots) {reference : Reference}
    (hkey : reference.key = owner.key) (hget : s.memory.get reference = .ok (some composite)) :
    owner.Of composite ∧ composite.spec.Holds (slots.map Slot.reference) := by
  obtain ⟨form, hform, hon, hspec, -⟩ := h.composite
  obtain ⟨form', hform', hread⟩ := get_eq_ok hget
  rw [hkey, hform] at hform'
  obtain rfl := Option.some.inj hform'
  obtain ⟨hof, hstored⟩ := hon.read hread
  exact ⟨hof, hstored ▸ hspec⟩

/-- Wherever a pass is, the state is sound. -/
theorem rests_of_keeps {α : Type} {ok : α → Resource → Ledger → Prop}
    {p : Program (Except CompositionError α × Resource)}
    (h : p.Keeps Serves (Permits owner version still slots)
      (Composing.ends ok (Rests owner version still slots)) s)
    (hok : ∀ result composite s, ok result composite s → Rests owner version still slots s) :
    Rests owner version still slots s := by
  cases p with
  | call request resume =>
    obtain ⟨kept, hsound, hstill⟩ := h.1
    exact ⟨kept, hsound, fun hs => (hstill hs).1⟩
  | done result =>
    obtain ⟨e | outcome, composite⟩ := result
    · exact h
    · exact hok outcome composite s h

/-- The invariant holds after any passes. -/
theorem Runs.sound {reference : Reference} (h : Runs Serves version reference start s)
    (hkey : reference.key = owner.key) (hstart : start.Sound owner version False []) :
    ∃ slots, s.Sound owner version False slots := by
  induction h with
  | refl => exact ⟨[], hstart⟩
  | pass _ hget hadmissible hreaches ih =>
    obtain ⟨slots, hsound⟩ := ih
    obtain ⟨hof, hspec⟩ := hsound.read hkey hget
    have hkeeps := (compose_keeps hadmissible hsound hof hspec False.elim).reaches hreaches
    obtain ⟨kept, hkept, -⟩ := rests_of_keeps hkeeps fun _ _ _ h => h.rests
    exact ⟨kept, hkept⟩

/-- Nothing is lost and nothing is made twice. After any passes, at any of their calls, what the
composite controls is accounted for. -/
theorem Runs.accounted (hstart : start.Starts composite) (hnameable : composite.Nameable)
    (hruns : Runs Serves version composite.reference start s) :
    ∃ references, s.Accounted composite references := by
  obtain ⟨owner, hof, hsound⟩ := hstart.sound hnameable version
  have hkey : composite.key = owner.key := hof.toOf.key
  obtain ⟨slots, hs⟩ := hruns.sound hkey hsound
  obtain ⟨form, hform, hon, hspec, -⟩ := hs.composite
  -- What the composite controls is the resource of a slot.
  have hslot (key : ObjectKey) (r : Resource) (hstored : s.stored? key = some r)
      (hcontrols : composite.controls r = true) :
      ∃ slot ∈ slots, slot.key = key ∧ r.templateName? = some slot.template := by
    obtain ⟨form, hlookup, hread⟩ := stored?_eq_some.mp hstored
    obtain ⟨slot, hmem, rfl⟩ :=
      hs.covered key form r hlookup hread (hof.controls_iff.mp hcontrols)
    exact ⟨slot, hmem, rfl, ((hs.held slot hmem form hlookup).read hread).templateName⟩
  refine ⟨slots.map Slot.reference, {
    held := ⟨form, hkey ▸ hform, hspec.held⟩
    read := fun r hstored => ?_
    distinct := ?_
    referred := fun key r hstored hcontrols => ?_
    templated := fun key r hstored hcontrols => ?_
    single := fun key key' r r' hstored hstored' hcontrols hcontrols' hsame => ?_ }⟩
  · obtain ⟨form', hform', hread⟩ := stored?_eq_some.mp hstored
    rw [hkey, hform] at hform'
    obtain rfl := Option.some.inj hform'
    exact resourceRefs_eq_ok.mpr ((hon.read hread).2 ▸ hspec.held)
  · refine List.Nodup.of_map ObjectKey.name ?_
    rw [List.map_map, List.map_map]
    exact hs.names
  · obtain ⟨slot, hmem, rfl, -⟩ := hslot key r hstored hcontrols
    exact ⟨slot.reference, List.mem_map_of_mem hmem, rfl⟩
  · obtain ⟨slot, -, -, htemplate⟩ := hslot key r hstored hcontrols
    rw [htemplate]
    rfl
  · obtain ⟨slot, hmem, rfl, htemplate⟩ := hslot key r hstored hcontrols
    obtain ⟨slot', hmem', rfl, htemplate'⟩ := hslot key' r' hstored' hcontrols'
    rw [htemplate, htemplate'] at hsame
    rw [hs.eq_of_template hmem hmem' (Option.some.inj hsame)]

/-! ### A composite at work -/

/-- A pass over a composite with a revision, in an empty environment. -/
def pass (revision : Revision) (composite : Resource) :
    Program (Except CompositionError Outcome × Resource) :=
  (Composition.compose .standard { revision }).run composite

/-- The ledger after a pass over a stored composite against a handler. -/
def composed (handler : Handler Ledger) (reference : Reference) (revision : Revision)
    (s : Ledger) : Ledger :=
  match s.memory.get reference with
  | .ok (some composite) => ((pass revision composite).run handler s).2
  | _ => s

theorem reaches_composed (handler : Handler Ledger) (revision : Revision) {reference : Reference}
    (hget : s.memory.get reference = .ok (some composite)) :
    ∃ log, Program.Reaches handler.world (pass revision composite) s log
      (.done ((pass revision composite).run handler s).1)
      (s.composed handler reference revision) := by
  rw [Ledger.composed, hget]
  exact Program.reaches_run ..

/-- A pass against a handler is a pass in every world that replies as the handler does. -/
theorem Runs.composed {handler : Handler Ledger} {reference : Reference} {revision : Revision}
    (h : Runs world version reference start s)
    (hworld : ∀ request s reply after, handler.world request s reply after →
      world request s reply after) (hadmissible : revision.Admissible version) :
    Runs world version reference start (s.composed handler reference revision) := by
  cases hget : s.memory.get reference with
  | error e => simpa only [Ledger.composed, hget] using h
  | ok composite? =>
    cases composite? with
    | none => simpa only [Ledger.composed, hget] using h
    | some composite =>
      obtain ⟨log, hreaches⟩ := reaches_composed handler revision hget
      exact .pass h hget hadmissible (hreaches.mono hworld)

/-- A composite that wants a size and has composed nothing yet. -/
def loner : Resource where
  typeMeta := some ⟨"v1", "Loner"⟩
  metadata := {
    name := some "loner", uid := some "u", labels := some [("tessera.dev/composite", "loner")] }
  body := [("spec", .object [("size", .int 3)])]

/-- A store of a composite and nothing else. -/
def holding (composite : Resource) : Ledger where
  memory := Memory.insert composite {}

/-- A template of a name for objects of a kind, which get the size of the composite. -/
def sized (name kind : String) : Template where
  name := some name
  base := .object [("apiVersion", .string "v1"), ("kind", .string kind)]
  patches := [{ fromFieldPath := some "spec.size" }]

/-- A recipe of two templates. -/
def pair : Revision where
  templates := [sized "box" "Box", sized "lid" "Lid"]

theorem holding_starts (hread : ofJson composite.encode = .ok composite)
    (hordered : composite.encode.Ordered) (huid : composite.uid ≠ "")
    (hreferences : composite.spec.heldReferences? = some [])
    (hfree : composite.controls composite = false) : (holding composite).Starts composite := by
  have hlookup (key : ObjectKey) : (holding composite).lookup? key =
      if key = composite.key then some composite.encode else none := Memory.lookup?_put ..
  refine ⟨?_, fun form hform => ?_, huid, resourceRefs_eq_ok.mpr hreferences,
    fun key r hstored => ?_⟩
  · have hkey : (holding composite).memory.lookup? composite.reference.key =
        some composite.encode := (hlookup _).trans (if_pos rfl)
    simp [Memory.get, hkey, hread, Except.map]
  · obtain rfl : composite.encode = form := by simpa [hlookup] using hform
    exact hordered
  · obtain ⟨form, hform, hr⟩ := stored?_eq_some.mp hstored
    rw [hlookup] at hform
    split at hform
    · obtain rfl := Option.some.inj hform
      obtain rfl := Except.ok.inj (hread.symm.trans hr)
      exact hfree
    · cases hform

theorem loner_starts : (holding loner).Starts loner :=
  holding_starts (ofJson_eq_ok.mpr (by decide +kernel)) (by decide +kernel) (by decide)
    (by decide +kernel) (by decide +kernel)

theorem sized_makes (name kind : String) : (sized name kind).Makes ⟨"v1", kind⟩ := by
  have hsorted : ["apiVersion", "kind"].Pairwise (· < ·) := by decide
  exact ⟨⟨Dict.sorted_iff_pairwise.mpr hsorted, trivial, trivial, trivial⟩, rfl, rfl⟩

theorem sized_writes {name kind : String} {p : Patch} (hp : p ∈ (sized name kind).patches) :
    p.type = .fromComposite ∧ p.WritesUnder "spec" := by
  obtain rfl := List.mem_singleton.mp hp
  refine ⟨rfl, fun path segments hpath hparse => ?_⟩
  obtain rfl := Option.some.inj hpath
  obtain rfl : _ = segments := Except.ok.inj hparse
  exact ⟨_, _, rfl, rfl⟩

theorem sized_admissible {name kind : String} (hname : name ≠ "") (hkind : kind ≠ "") :
    (sized name kind).Admissible fun _ => "v1" where
  named := ⟨name, rfl, hname⟩
  makes := ⟨⟨"v1", kind⟩, sized_makes name kind, by simp, hkind, fun _ _ => rfl⟩
  composed _ hp _ := (sized_writes hp).2
  composite p hp htype := by simp [(sized_writes hp).1] at htype

theorem pair_admissible : pair.Admissible fun _ => "v1" := by
  intro templates htemplates
  obtain rfl : _ = templates := Except.ok.inj htemplates
  refine ⟨?_, by decide⟩
  simp only [List.forall_mem_cons]
  exact ⟨sized_admissible (by decide) (by decide), sized_admissible (by decide) (by decide), nofun⟩

/-- The store after the loner was composed. -/
def built : Ledger := (holding loner).composed handler loner.reference pair

/-- The store after the loner was composed twice. -/
def settled : Ledger := built.composed handler loner.reference pair

/-- The loner accounts for its box and its lid. -/
theorem settled_accounted :
    (∃ references, settled.Accounted loner references) ∧
      (settled.stored? ⟨"v1", "Box", "", "loner-00001"⟩).any loner.controls = true ∧
      (settled.stored? ⟨"v1", "Lid", "", "loner-00002"⟩).any loner.controls = true := by
  refine ⟨Runs.accounted loner_starts (by simp [Nameable, Metadata.unnamed, loner]) (?_ : Runs _ (fun _ => "v1") _ (holding loner) settled),
    by decide +kernel, by decide +kernel⟩
  exact ((Runs.refl (holding loner)).composed (fun _ _ _ _ => serves_handler) pair_admissible).composed
    (fun _ _ _ _ => serves_handler) pair_admissible

/-- How a store may reply that says of objects which are there that they are not: any call may be
refused with any error. -/
def Misleads : World Ledger := fun request s reply after =>
  Serves request s reply after ∨ ∃ cause, reply = request.refused cause ∧ after = s

/-- A ledger that denies objects of a name. -/
def denying (name : String) : Handler Ledger where
  reply
    | .get reference, s =>
      if reference.name = some name then (.error Memory.notFound, s)
      else handler.reply (.get reference) s
    | request, s => handler.reply request s

theorem misleads_denying {name : String} {request : Call} {reply : request.Reply} {after : Ledger}
    (h : (denying name).world request s reply after) : Misleads request s reply after := by
  cases request with
  | get reference =>
    simp only [Handler.world, denying] at h
    split at h
    · obtain ⟨rfl, rfl⟩ := Prod.mk.inj h
      exact .inr ⟨Memory.notFound, rfl, rfl⟩
    · exact .inl (serves_handler h)
  | _ => exact .inl (serves_handler h)

/-- The store after the loner was composed twice, the second time by a ledger that denies the lid. -/
def misled : Ledger := built.composed (denying "loner-00002") loner.reference pair

/-- A store that denies an object makes a composite lose it: the loner makes a second lid, and no
longer refers to the first one. -/
theorem lid_lost :
    (holding loner).Starts loner ∧ Runs Misleads (fun _ => "v1") loner.reference (holding loner) misled ∧
      ¬ ∃ references, misled.Accounted loner references := by
  refine ⟨loner_starts, ?_, fun ⟨references, h⟩ => ?_⟩
  · exact ((Runs.refl (holding loner)).composed (fun _ _ _ _ h => .inl (serves_handler h))
      pair_admissible).composed (fun _ _ _ _ => misleads_denying) pair_admissible
  · have hlid (name : String) (hlid : (misled.stored? ⟨"v1", "Lid", "", name⟩).any (fun r =>
        loner.controls r && decide (r.templateName? = some "lid")) = true) :
        ∃ r, misled.stored? ⟨"v1", "Lid", "", name⟩ = some r ∧ loner.controls r = true ∧
          r.templateName? = some "lid" := by
      simpa only [Option.any_eq_true, Bool.and_eq_true, decide_eq_true_eq] using hlid
    obtain ⟨r, hstored, hcontrols, htemplate⟩ := hlid "loner-00002" (by decide +kernel)
    obtain ⟨r', hstored', hcontrols', htemplate'⟩ := hlid "loner-00003" (by decide +kernel)
    have hkey := h.single _ _ _ _ hstored hstored' hcontrols hcontrols'
      (htemplate.trans htemplate'.symm)
    exact absurd (congrArg ObjectKey.name hkey) (by decide)

end Ledger

end ResourceComposition
