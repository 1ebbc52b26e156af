import ResourceComposition.Proofs.Retention
import ResourceComposition.Proofs.Rounds

/-!
# What falling back has done by then

When a resource names no template, matching by name gives way to matching by place, with the
references as they were. But the resources before it have been looked at, and those of them that are
orphans have been deleted on the way. The match by place knows nothing of that, and may give a
template a reference to what is deleted.

`byName_fallback_effects` says exactly when this happens: the fallback has deleted the orphans that
were read before it, and nothing else. So nothing is deleted exactly if no orphan was read, and no
reference leads to something deleted exactly if no orphan was read through a reference that has a
template at its place. Whether falling back is without effects hangs on the order of the references
(`plain_box_first`, `old_box_first`).
-/

namespace ResourceComposition

namespace Association

variable {composite : Resource} {templates : List Template} {references : List Reference}
  {reference : Reference} {log : List Exchange}

/-- The match by place gives out as many references as there are templates. -/
theorem exists_byOrder_iff : (∃ a ∈ byOrder templates references, a.reference = some reference) ↔
    reference ∈ references.take templates.length := by
  induction templates generalizing references with
  | nil => simp [byOrder]
  | cons t rest ih =>
    cases references with
    | nil => simpa [byOrder] using @ih []
    | cons first more =>
      rw [byOrder, List.exists_mem_cons_iff, ih, List.length_cons, List.take_succ_cons,
        List.mem_cons]
      simp [eq_comm]

/-- An association refers to a resource that was read and deleted. -/
def RefersToDeleted (associations : List Association) (log : List Exchange) : Prop :=
  ∃ a ∈ associations, ∃ reference r, a.reference = some reference ∧ reading reference r ∈ log ∧
    deleting r ∈ log

/-- Nothing is deleted exactly if no orphan is read. -/
theorem DeletesOrphans.nothing_iff (h : DeletesOrphans composite templates log) :
    (∀ r reply, ⟨.delete r, reply⟩ ∉ log) ↔
      ∀ reference r, reading reference r ∈ log → ¬ Orphan composite templates r := by
  constructor
  · intro hnone reference r hread horphan
    exact hnone r _ ((h r _).mpr ⟨rfl, horphan, reference, hread⟩)
  · intro hnone r reply hdelete
    obtain ⟨-, horphan, reference, hread⟩ := (h r reply).mp hdelete
    exact hnone reference r hread horphan

/-- The match by place refers to something deleted exactly if an orphan is read through one of the
references that it gives out. -/
theorem DeletesOrphans.refersToDeleted_iff (h : DeletesOrphans composite templates log) :
    RefersToDeleted (byOrder templates references) log ↔
      ∃ reference ∈ references.take templates.length, ∃ r, reading reference r ∈ log ∧
        Orphan composite templates r := by
  constructor
  · rintro ⟨a, ha, reference, r, hreference, hread, hdelete⟩
    exact ⟨reference, exists_byOrder_iff.mp ⟨a, ha, hreference⟩, r, hread, ((h r _).mp hdelete).2.1⟩
  · rintro ⟨reference, hgiven, r, hread, horphan⟩
    obtain ⟨a, ha, hreference⟩ := exists_byOrder_iff.mpr hgiven
    exact ⟨a, ha, reference, r, hreference, hread, (h r _).mpr ⟨rfl, horphan, reference, hread⟩⟩

/-- What matching by name has done when it falls back because a resource names no template, whatever
the store replies. The match is by place, with the references as they were. The resource was read
last. What was deleted are the orphans that were read before; so the fallback is without effect
exactly if there was none, and refers to nothing deleted exactly if none of them has a template at
its place. -/
theorem byName_fallback_effects {σ : Type} (store : Handler σ) (s : σ) (composite : Resource)
    (templates : List Template) (hnames : ∀ t ∈ templates, t.name ≠ none) :
    let (result, log) := byNameRecord store s composite templates
    ∀ reference r, reading reference r ∈ log → r.templateName? = none →
      ∃ references, composite.resourceRefs = .ok references ∧
        result = .ok (byOrder templates references) ∧
        (∃ before, log = before ++ [reading reference r] ∧ Named before) ∧
        DeletesOrphans composite templates log ∧
        ((∀ r reply, ⟨.delete r, reply⟩ ∉ log) ↔
          ∀ reference r, reading reference r ∈ log → ¬ Orphan composite templates r) ∧
        (RefersToDeleted (byOrder templates references) log ↔
          ∃ reference ∈ references.take templates.length, ∃ r, reading reference r ∈ log ∧
            Orphan composite templates r) := by
  have hcases := byNameRecord_cases store s composite hnames
  generalize byNameRecord store s composite templates = record at hcases ⊢
  obtain ⟨result, log⟩ := record
  intro reference r hread hname
  obtain ⟨-, rfl⟩ | ⟨references, hreferences, hround⟩ := hcases
  · cases hread
  · obtain ⟨hresult, hlast⟩ := hround.givenUp_of_nameless hread hname
    have hdeletes := hround.deletesOrphans (byOrder_templates templates []) hresult
    exact ⟨references, hreferences, hresult, hlast, hdeletes, hdeletes.nothing_iff,
      hdeletes.refersToDeleted_iff⟩

/-! ### An old box and a plain one -/

/-- A composite that refers to some boxes. -/
def heir (names : List String) : Resource where
  typeMeta := some ⟨"v1", "Loner"⟩
  metadata := { name := some "loner", uid := some "u" }
  body := [("spec", .object [("resourceRefs",
    .array (names.map fun name => (boxReference name).encode))])]

/-- A box that names a template, and that the heir controls. -/
def ownedBox (name template : String) : Resource where
  typeMeta := some ⟨"v1", "Box"⟩
  metadata := {
    name := some name, annotations := some [(Resource.templateAnnotation, template)]
    ownerReferences := some [{
      apiVersion := "v1", kind := "Loner", name := "loner", uid := "u"
      controller := some true }] }

/-- A box whose template is gone. -/
def oldBox : Resource := ownedBox "old" "chest"

/-- A box that names no template. -/
def plainBox : Resource where
  typeMeta := some ⟨"v1", "Box"⟩
  metadata := { name := some "plain" }

/-- The store of the two boxes. -/
def estate : Memory := (({} : Memory).insert oldBox).insert plainBox

/-- The resources that were deleted with success. -/
def deletions (log : List Exchange) : List Resource :=
  log.filterMap fun
    | ⟨.delete r, .ok _⟩ => some r
    | _ => none

theorem mem_deletions {r : Resource} : deleting r ∈ log ↔ r ∈ deletions log := by
  unfold deletions
  rw [List.mem_filterMap]
  constructor
  · intro h
    exact ⟨_, h, rfl⟩
  · rintro ⟨exchange, hmem, hdelete⟩
    split at hdelete
    · obtain rfl := Option.some.inj hdelete
      exact hmem
    · cases hdelete

/-- The matching comes to some associations, with some readings and deletions. -/
def comesTo (associations : List Association) (read : List (Reference × Resource))
    (deleted : List Resource) : Except CompositionError (List Association) × List Exchange → Bool
  | (.ok result, log) =>
    decide (result = associations ∧ readings log = read ∧ deletions log = deleted)
  | (.error _, _) => false

/-- If the plain box comes first, nothing is deleted. -/
theorem plain_box_first : (∀ t ∈ [boxTemplate], t.name ≠ none) ∧ ∃ associations log,
    byNameRecord Memory.handler estate (heir ["plain", "old"]) [boxTemplate] =
      (.ok associations, log) ∧
    (∃ reference r, reading reference r ∈ log ∧ r.templateName? = none) ∧
    (∀ r reply, ⟨.delete r, reply⟩ ∉ log) ∧ ¬ RefersToDeleted associations log := by
  have hnames : ∀ t ∈ [boxTemplate], t.name ≠ none := by simp [boxTemplate]
  have hcheck : comesTo [⟨boxTemplate, some (boxReference "plain")⟩]
      [(boxReference "plain", plainBox)] []
      (byNameRecord Memory.handler estate (heir ["plain", "old"]) [boxTemplate]) = true := by
    decide +kernel
  have heffects := byName_fallback_effects Memory.handler estate (heir ["plain", "old"])
    [boxTemplate] hnames
  generalize byNameRecord Memory.handler estate (heir ["plain", "old"]) [boxTemplate] = record
    at hcheck heffects
  obtain ⟨e | associations, log⟩ := record
  · cases hcheck
  · obtain ⟨-, hreadings, -⟩ := of_decide_eq_true hcheck
    have hname : plainBox.templateName? = none := by decide
    have hread : reading (boxReference "plain") plainBox ∈ log :=
      mem_readings.mpr (by simp [hreadings])
    have hnone (reference : Reference) (r : Resource) (hmem : reading reference r ∈ log) :
        ¬ Orphan (heir ["plain", "old"]) [boxTemplate] r := fun horphan => by
      rw [mem_readings, hreadings, List.mem_singleton] at hmem
      obtain ⟨-, rfl⟩ := Prod.mk.inj hmem
      exact horphan.named hname
    obtain ⟨references, -, hresult, -, -, hnothing, hrefers⟩ := heffects _ _ hread hname
    obtain rfl := Except.ok.inj hresult
    refine ⟨hnames, _, log, rfl, ⟨_, _, hread, hname⟩, hnothing.mpr hnone, fun habsurd => ?_⟩
    obtain ⟨reference, -, r, hmem, horphan⟩ := hrefers.mp habsurd
    exact hnone reference r hmem horphan

/-- If the old box comes first, it is deleted, and the template is given the reference to it. -/
theorem old_box_first : (∀ t ∈ [boxTemplate], t.name ≠ none) ∧ ∃ associations log,
    byNameRecord Memory.handler estate (heir ["old", "plain"]) [boxTemplate] =
      (.ok associations, log) ∧
    (∃ reference r, reading reference r ∈ log ∧ r.templateName? = none) ∧
    (∃ r, ⟨.delete r, .ok ()⟩ ∈ log) ∧ RefersToDeleted associations log := by
  have hcheck : comesTo [⟨boxTemplate, some (boxReference "old")⟩]
      [(boxReference "old", oldBox), (boxReference "plain", plainBox)] [oldBox]
      (byNameRecord Memory.handler estate (heir ["old", "plain"]) [boxTemplate]) = true := by
    decide +kernel
  generalize byNameRecord Memory.handler estate (heir ["old", "plain"]) [boxTemplate] = record
    at hcheck
  obtain ⟨e | associations, log⟩ := record
  · cases hcheck
  · obtain ⟨rfl, hreadings, hdeletions⟩ := of_decide_eq_true hcheck
    have hplain : reading (boxReference "plain") plainBox ∈ log :=
      mem_readings.mpr (by simp [hreadings])
    have hold : reading (boxReference "old") oldBox ∈ log := mem_readings.mpr (by simp [hreadings])
    have hdeleted : deleting oldBox ∈ log := mem_deletions.mpr (by simp [hdeletions])
    exact ⟨by simp [boxTemplate], _, log, rfl, ⟨_, _, hplain, by decide⟩, ⟨oldBox, hdeleted⟩,
      _, List.mem_singleton_self _, boxReference "old", oldBox, rfl, hold, hdeleted⟩

end Association

end ResourceComposition
