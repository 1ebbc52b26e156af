import ResourceComposition.Composition.Association
import ResourceComposition.Proofs.Execution
import ResourceComposition.Store.Memory

/-!
# Garbage collection deletes the orphans and nothing else

Matching by name deletes resources whose template is gone. What it may delete is an orphan: a
resource that names a template which there is not, and that the composite controls. The record of
its calls is taken as it is, so that nothing is said of the store: it may fail, lie, or change
between two calls.

`Collected` says that each orphan that was read was deleted at once. It is the invariant of going
through the references, together with `Named`, that every resource read so far has named a
template; the one resource that does not ends the matching by name.
-/

namespace ResourceComposition

namespace Association

/-- A resource that names a template which is not among those given, and that the composite
controls as the owner with its own identifier. -/
structure Orphan (composite : Resource) (templates : List Template) (r : Resource) : Prop where
  /-- The annotation names a template that there is not. -/
  unmatched : ∃ name, r.metadata.annotation? Resource.templateAnnotation = some name ∧ name ≠ "" ∧
    ∀ t ∈ templates, t.name ≠ some name
  /-- The controller has the identifier of the composite. -/
  owned : ∃ owner, r.metadata.controller? = some owner ∧ owner.uid = composite.uid ∧
    composite.uid ≠ ""

/-- The call that reads a resource through a reference, and finds it. -/
def reading (reference : Reference) (r : Resource) : Exchange := ⟨.get reference, .ok (some r)⟩

/-- The call that deletes a resource, with success. -/
def deleting (r : Resource) : Exchange := ⟨.delete r, .ok ()⟩

/-- Matching by name gives way to matching by place: a template has no name, or a resource that
was read names no template. -/
def FallsBack (templates : List Template) (log : List Exchange) : Prop :=
  (∃ t ∈ templates, t.name = none) ∨
    ∃ reference r, reading reference r ∈ log ∧ r.templateName? = none

/-- Each orphan that was read was deleted right afterwards. -/
def Collected (composite : Resource) (templates : List Template) (log : List Exchange) : Prop :=
  ∀ before reference r after, log = before ++ reading reference r :: after →
    Orphan composite templates r → ∃ rest, after = deleting r :: rest

/-- The store was asked for all references. -/
def Asked (references : List Reference) (log : List Exchange) : Prop :=
  ∀ reference ∈ references, ∃ reply, ⟨.get reference, reply⟩ ∈ log

/-- Every resource that was read names a template. -/
def Named (log : List Exchange) : Prop :=
  ∀ reference r, reading reference r ∈ log → r.templateName? ≠ none

theorem reading_inj {reference reference' : Reference} {r r' : Resource} :
    reading reference r = reading reference' r' ↔ reference = reference' ∧ r = r' := by
  simp only [reading, Exchange.mk.injEq, Call.get.injEq]
  refine and_congr_right ?_
  rintro rfl
  simp

/-! ### Binding by name -/

theorem bindName_eq_none {name : String} {reference : Reference} {bound : List Association} :
    bindName name reference bound = none ↔ ∀ a ∈ bound, a.template.name ≠ some name := by
  induction bound with
  | nil => simp [bindName]
  | cons a rest ih =>
    rw [bindName, List.forall_mem_cons]
    cases hrest : bindName name reference rest with
    | some more =>
      have := mt ih.mpr (by simp [hrest])
      simp [this]
    | none =>
      have := ih.mp hrest
      by_cases ha : a.template.name = some name <;> simp_all

theorem bindName_templates {name : String} {reference : Reference} {bound more : List Association}
    (h : bindName name reference bound = some more) :
    more.map (·.template) = bound.map (·.template) := by
  induction bound generalizing more with
  | nil => simp [bindName] at h
  | cons a rest ih =>
    rw [bindName] at h
    cases hrest : bindName name reference rest with
    | some bound =>
      rw [hrest] at h
      obtain rfl := Option.some.inj h
      simp [ih hrest]
    | none =>
      rw [hrest] at h
      by_cases ha : a.template.name = some name
      · obtain rfl : _ = more := by simpa [ha] using h
        rfl
      · simp [ha] at h

theorem byOrder_templates (templates : List Template) (references : List Reference) :
    (byOrder templates references).map (·.template) = templates := by
  induction templates generalizing references with
  | nil => cases references <;> rfl
  | cons t rest ih => cases references <;> simp [byOrder, ih]

/-! ### Orphans -/

variable {composite r : Resource} {templates : List Template} {log : List Exchange}

/-- A resource that is bound to no template and that the composite controls is an orphan. -/
theorem orphan_iff (composite : Resource) (reference : Reference) {name : String}
    {bound : List Association}
    (hbound : bound.map (·.template) = templates) (hname : r.templateName? = some name) :
    Orphan composite templates r ↔
      bindName name reference bound = none ∧ composite.controls r = true := by
  obtain ⟨hnote, hne⟩ := Option.filter_eq_some_iff.mp hname
  have hnone : bindName name reference bound = none ↔ ∀ t ∈ templates, t.name ≠ some name := by
    rw [bindName_eq_none, ← hbound]
    simp
  have hcontrols : composite.controls r = true ↔
      ∃ owner, r.metadata.controller? = some owner ∧ owner.uid = composite.uid ∧
        composite.uid ≠ "" := by
    cases h : r.metadata.controller? <;>
      simp [Resource.controls, h, and_comm]
  refine ⟨fun h => ⟨hnone.mpr ?_, hcontrols.mpr h.owned⟩, fun h => ⟨?_, hcontrols.mp h.2⟩⟩
  · obtain ⟨name', hnote', -, hgone⟩ := h.unmatched
    obtain rfl : name = name' := Option.some.inj (hnote.symm.trans hnote')
    exact hgone
  · exact ⟨name, hnote, by simpa [String.isEmpty_iff] using hne, hnone.mp h.1⟩

/-! ### The record grows -/

/-- The places in a list with one more entry are the places in the list, and the last. -/
theorem snoc_eq_split {α : Type} {l before after : List α} {a b : α}
    (h : l ++ [a] = before ++ b :: after) :
    (l = before ∧ a = b ∧ after = []) ∨ ∃ shorter, after = shorter ++ [a] ∧
      l = before ++ b :: shorter := by
  obtain rfl | ⟨shorter, c, rfl⟩ := List.eq_nil_or_concat after
  · obtain ⟨rfl, h⟩ := List.append_inj' h rfl
    exact .inl ⟨rfl, by simpa using h, rfl⟩
  · rw [List.concat_eq_append, ← List.cons_append, ← List.append_assoc] at h
    obtain ⟨rfl, h⟩ := List.append_inj' h rfl
    exact .inr ⟨shorter, by simpa [eq_comm] using h, rfl⟩

theorem Collected.snoc {exchange : Exchange} (h : Collected composite templates log)
    (hnew : ∀ reference r, exchange = reading reference r → ¬ Orphan composite templates r) :
    Collected composite templates (log ++ [exchange]) := by
  intro before reference r after hsplit horphan
  obtain ⟨-, rfl, -⟩ | ⟨shorter, rfl, hlog⟩ := snoc_eq_split hsplit
  · exact absurd horphan (hnew reference r rfl)
  · obtain ⟨rest, rfl⟩ := h before reference r shorter hlog horphan
    exact ⟨rest ++ [exchange], rfl⟩

/-- Reading an orphan and deleting it at once. -/
theorem Collected.snoc_deleting {reference : Reference} (h : Collected composite templates log) :
    Collected composite templates (log ++ [reading reference r] ++ [deleting r]) := by
  intro before reference' r' after hsplit horphan
  obtain ⟨-, habsurd, -⟩ | ⟨shorter, rfl, hshort⟩ := snoc_eq_split hsplit
  · simp [deleting, reading] at habsurd
  · obtain ⟨-, hread, rfl⟩ | ⟨shorter', rfl, hlog⟩ := snoc_eq_split hshort
    · obtain ⟨rfl, rfl⟩ := reading_inj.mp hread
      exact ⟨[], rfl⟩
    · obtain ⟨rest, rfl⟩ := h before reference' r' shorter' hlog horphan
      exact ⟨rest ++ [reading reference r] ++ [deleting r], by simp⟩

theorem Named.snoc {exchange : Exchange} (h : Named log)
    (hnew : ∀ reference r, exchange = reading reference r → r.templateName? ≠ none) :
    Named (log ++ [exchange]) := by
  intro reference r hmem
  obtain hmem | hmem := List.mem_append.mp hmem
  · exact h reference r hmem
  · exact hnew reference r (List.mem_singleton.mp hmem).symm

theorem Asked.append {references : List Reference} (h : Asked references log)
    (more : List Exchange) : Asked references (log ++ more) := fun reference hmem =>
  (h reference hmem).imp fun _ => List.mem_append_left more

theorem Asked.snoc {references : List Reference} (h : Asked references log) (reference : Reference)
    (reply : (Call.get reference).Reply) :
    Asked (references ++ [reference]) (log ++ [⟨.get reference, reply⟩]) :=
  List.forall_mem_append.mpr ⟨h.append _, List.forall_mem_singleton.mpr ⟨reply, by simp⟩⟩

/-! ### Going through the references -/

/-- A call is allowed after the record of those before it: what is deleted is an orphan that was
read just before, through one of the references of the composite, and all templates have names. -/
def Allowed (composite : Resource) (templates : List Template) : Call → List Exchange → Prop
  | .delete r, log => Orphan composite templates r ∧ (∀ t ∈ templates, t.name ≠ none) ∧
      ∃ earlier reference references, composite.resourceRefs = .ok references ∧
        reference ∈ references ∧ log = earlier ++ [reading reference r]
  | _, _ => True

/-- What is wanted of an association that succeeds: either the store was asked for all references, all
orphans were collected and no fallback was called for, or the match is by place. -/
def Collects (composite : Resource) (templates : List Template) (associations : List Association)
    (log : List Exchange) : Prop :=
  (Collected composite templates log ∧ ¬ FallsBack templates log ∧
      ∃ references, composite.resourceRefs = .ok references ∧ Asked references log) ∨
    FallsBack templates log ∧ ∃ references, composite.resourceRefs = .ok references ∧
      associations = byOrder templates references

/-- The invariant of going through the references: those before were asked for, all that was read
names a template, and the orphans among it were collected. -/
theorem collect_keeps {references before rest : List Reference} {bound : List Association}
    (hreferences : composite.resourceRefs = .ok references) (hsplit : references = before ++ rest)
    (hasked : Asked before log) (hbound : bound.map (·.template) = templates)
    (hnames : ∀ t ∈ templates, t.name ≠ none) (hnamed : Named log)
    (hcollected : Collected composite templates log) :
    (collect composite (byOrder templates references) rest bound).Keeps .recording
      (Allowed composite templates) (Collects composite templates) (fun _ => True) log := by
  induction rest generalizing before bound log with
  | nil =>
    rw [List.append_nil] at hsplit
    refine Attempt.keeps_pure.mpr (.inl ⟨hcollected, ?_, references, hreferences, hsplit ▸ hasked⟩)
    rintro (⟨t, ht, hname⟩ | ⟨reference, r, hmem, hname⟩)
    · exact hnames t ht hname
    · exact hnamed reference r hmem hname
  | cons reference rest ih =>
    have hreference : reference ∈ references := by simp [hsplit]
    have hsplit : references = (before ++ [reference]) ++ rest := by simp [hsplit]
    rw [collect]
    refine Attempt.keeps_bind.mpr (Attempt.keeps_find trivial ?_ ?_ fun _ _ _ => trivial)
    · rintro (_ | r) _ rfl
      · exact ih hsplit (hasked.snoc _ _) hbound (hnamed.snoc (by simp [reading]))
          (hcollected.snoc (by simp [reading]))
      · dsimp only
        cases hname : r.templateName? with
        | none => exact .inr ⟨.inr ⟨reference, r, by simp [reading], hname⟩, references, hreferences, rfl⟩
        | some name =>
          have hasked : Asked (before ++ [reference]) (log ++ [reading reference r]) := hasked.snoc _ _
          have hread : Named (log ++ [reading reference r]) := hnamed.snoc fun reference' r' h => by
            obtain ⟨rfl, rfl⟩ := reading_inj.mp h
            simp [hname]
          have hpassed (h : ¬ Orphan composite templates r) :
              Collected composite templates (log ++ [reading reference r]) :=
            hcollected.snoc fun reference' r' heq => by
              obtain ⟨rfl, rfl⟩ := reading_inj.mp heq
              exact h
          -- The test that leads to a deletion is the one for orphans.
          have horphan := orphan_iff composite reference hbound hname
          dsimp only
          cases hbind : bindName name reference bound with
          | some more =>
            exact ih hsplit hasked ((bindName_templates hbind).trans hbound) hread
              (hpassed (by simp [horphan, hbind]))
          | none =>
            by_cases hcontrols : composite.controls r = true
            · simp only [hcontrols, if_true]
              refine Attempt.keeps_bind.mpr (Attempt.keeps_asking.mpr ⟨⟨horphan.mpr
                ⟨hbind, hcontrols⟩, hnames, log, reference, references, hreferences, hreference,
                rfl⟩, ?_⟩)
              rintro (e | _) _ rfl
              · trivial
              · exact ih hsplit (hasked.append _) hbound (hread.snoc (by simp [reading]))
                  hcollected.snoc_deleting
            · simp only [hcontrols]
              exact ih hsplit hasked hbound hread (hpassed (by simp [horphan, hcontrols]))
    · rintro e _ rfl _
      exact ih hsplit (hasked.snoc _ _) hbound (hnamed.snoc (by simp [reading]))
        (hcollected.snoc (by simp [reading]))

theorem byName_keeps (composite : Resource) (templates : List Template) :
    (byName composite templates).Keeps .recording (Allowed composite templates)
      (Collects composite templates) (fun _ => True) [] := by
  have hheld {α : Type} {f : List Reference → Attempt α} {ok : α → List Exchange → Prop}
      (h : ∀ references, composite.resourceRefs = .ok references →
        (f references).Keeps .recording (Allowed composite templates) ok (fun _ => True) []) :
      (heldReferences composite >>= f).Keeps .recording (Allowed composite templates) ok
        (fun _ => True) [] := by
    refine Attempt.keeps_bind.mpr (Attempt.keeps_ofExcept.mpr ?_)
    cases hreferences : composite.resourceRefs with
    | error e => trivial
    | ok references => exact h references hreferences
  unfold byName
  split
  · next hanonymous =>
    refine hheld fun references hreferences => .inr ⟨.inl ?_, references, hreferences, rfl⟩
    simpa using hanonymous
  · next hnamed =>
    refine hheld fun references hreferences => collect_keeps hreferences (List.nil_append _).symm
      (by simp [Asked]) (byOrder_templates templates []) ?_ (by simp [Named]) (by simp [Collected])
    simpa [Option.eq_none_iff_forall_ne_some] using hnamed

/-- The end of matching by name against a store, and the record of all its calls. -/
def byNameRecord {σ : Type} (store : Handler σ) (s : σ) (composite : Resource)
    (templates : List Template) : Except CompositionError (List Association) × List Exchange :=
  let (result, _, log) := (byName composite templates).run.run store.logged (s, [])
  (result, log)

/-- Garbage collection deletes exactly the orphans, whatever the store does. What is deleted is an
orphan that was read just before through a reference of the composite, and nothing is deleted if a
template has no name. If the association succeeds and does not fall back to the match by place, then
the store was asked for all references of the composite, and all orphans that were read were deleted
with success. -/
theorem byName_deletes_exactly_orphans {σ : Type} (store : Handler σ) (s : σ)
    (composite : Resource) (templates : List Template) :
    let (result, log) := byNameRecord store s composite templates
    (∀ before r reply after, log = before ++ ⟨.delete r, reply⟩ :: after →
      Orphan composite templates r ∧
        ∃ earlier reference references, composite.resourceRefs = .ok references ∧
          reference ∈ references ∧ before = earlier ++ [⟨.get reference, .ok (some r)⟩]) ∧
    ((∃ t ∈ templates, t.name = none) → ∀ r reply, ⟨.delete r, reply⟩ ∉ log) ∧
    (∀ associations, result = .ok associations → ¬ FallsBack templates log →
      ∀ before reference r after, log = before ++ ⟨.get reference, .ok (some r)⟩ :: after →
        Orphan composite templates r → ∃ rest, after = ⟨.delete r, .ok ()⟩ :: rest) ∧
    (∀ associations, result = .ok associations → FallsBack templates log →
      ∃ references, composite.resourceRefs = .ok references ∧
        associations = byOrder templates references) ∧
    (∀ associations, result = .ok associations → ¬ FallsBack templates log →
      ∃ references, composite.resourceRefs = .ok references ∧
        ∀ reference ∈ references, ∃ reply, ⟨.get reference, reply⟩ ∈ log) := by
  obtain ⟨log, hlog, hend, hallowed⟩ := (byName_keeps composite templates).run_logged store s
  simp only [byNameRecord, hlog]
  simp only [List.nil_append] at hend hallowed ⊢
  refine ⟨?_, ?_, ?_, ?_, ?_⟩
  · intro before r reply after hsplit
    obtain ⟨horphan, -, hread⟩ := hallowed before _ after hsplit
    exact ⟨horphan, hread⟩
  · rintro ⟨t, ht, hname⟩ r reply hmem
    obtain ⟨before, after, hsplit⟩ := List.append_of_mem hmem
    obtain ⟨-, hnamed, -⟩ := hallowed before _ after hsplit
    exact hnamed t ht hname
  · intro associations hresult hfalls
    rw [hresult] at hend
    exact (hend.resolve_right fun h => hfalls h.1).1
  · intro associations hresult hfalls
    rw [hresult] at hend
    exact (hend.resolve_left fun h => h.2.1 hfalls).2
  · intro associations hresult hfalls
    rw [hresult] at hend
    exact (hend.resolve_right fun h => hfalls h.1).2.2

/-- A loft that owns trunks. -/
def loft : Resource where
  typeMeta := some ⟨"v1", "Loft"⟩
  metadata := { name := some "loft", uid := some "u" }
  body := [("spec", .object [("resourceRefs", .array (["mine", "theirs"].map fun name =>
    .object [("apiVersion", .string "v1"), ("kind", .string "Trunk"), ("name", .string name)]))])]

/-- A trunk for a template that is gone, which an owner controls. -/
def trunk (name uid : String) : Resource where
  typeMeta := some ⟨"v1", "Trunk"⟩
  metadata := {
    name := some name
    annotations := some [(Resource.templateAnnotation, "trunk")]
    ownerReferences := some [{
      apiVersion := "v1", kind := "Loft", name := "loft", uid, controller := some true }] }

/-- Of two trunks whose template is gone, the one that the loft controls is deleted. -/
example :
    (byNameRecord Memory.handler ((({} : Memory).insert (trunk "mine" "u")).insert (trunk "theirs" "w"))
      loft [{ name := some "chest" }]).2.map (fun exchange => match exchange.request with
        | .get reference => ("get", reference.name)
        | .delete r => ("delete", r.metadata.name)
        | _ => ("", none)) =
      [("get", some "mine"), ("delete", some "mine"), ("get", some "theirs")] := by
  decide +kernel

end Association

end ResourceComposition
