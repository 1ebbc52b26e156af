import Mathlib.Data.List.Basic
import Mathlib.Logic.Function.Basic
import ResourceComposition.Proofs.Collection
import ResourceComposition.Proofs.Turns
import ResourceComposition.Store.Memory

/-!
# What becomes of the resources that a composite controls

Matching by name goes through the references of a composite and reads the resource behind each. A
resource that the composite controls should afterwards be bound to a template or be gone. Each
resource that names a template is bound to it, but a template has one place only: a resource that
is read later for the same template takes the place of one that was read before, and nothing is
left that leads to the earlier one.

`lastRead?` says which reference was read last for a template, by the record of the calls alone,
and `assign` what the templates are bound to thereby. That the bindings at each point are those of
the record so far is the invariant of going through the references.
-/

namespace ResourceComposition

namespace Association

/-! ### The reference read last for a name -/

/-- The reference through which an exchange reads a resource of the template with a name. -/
def readFor? (name : String) : Exchange → Option Reference
  | ⟨.get reference, .ok (some r)⟩ => if r.templateName? = some name then some reference else none
  | _ => none

/-- The reference through which a resource of the template with a name was read last. -/
def lastRead? (log : List Exchange) (name : String) : Option Reference :=
  log.reverse.findSome? (readFor? name)

theorem readFor?_eq_some {name : String} {exchange : Exchange} {reference : Reference} :
    readFor? name exchange = some reference ↔
      ∃ r, exchange = reading reference r ∧ r.templateName? = some name := by
  constructor
  · intro h
    unfold readFor? at h
    split at h
    · next reference' r =>
      split at h
      · next hname =>
        obtain rfl := Option.some.inj h
        exact ⟨r, rfl, hname⟩
      · cases h
    · cases h
  · rintro ⟨r, rfl, hname⟩
    simp [readFor?, reading, hname]

theorem lastRead?_snoc (log : List Exchange) (exchange : Exchange) (name : String) :
    lastRead? (log ++ [exchange]) name = (readFor? name exchange).or (lastRead? log name) := by
  unfold lastRead?
  rw [List.reverse_append, List.reverse_singleton, List.singleton_append, List.findSome?_cons]
  cases readFor? name exchange <;> rfl

/-- What is read for a name shows in the record at once, and for no other name. -/
theorem lastRead?_reading (log : List Exchange) (reference : Reference) {r : Resource}
    {name : String} (hname : r.templateName? = some name) :
    lastRead? (log ++ [reading reference r]) =
      Function.update (lastRead? log) name (some reference) := by
  funext other
  rw [lastRead?_snoc, Function.update_apply]
  by_cases h : other = name
  · simp [readFor?, reading, hname, h]
  · simp [readFor?, reading, hname, h, eq_comm (a := name)]

/-- An exchange that reads nothing for any name leaves the record as it is. -/
theorem lastRead?_silent (log : List Exchange) (exchange : Exchange)
    (h : ∀ reference r, exchange ≠ reading reference r) :
    lastRead? (log ++ [exchange]) = lastRead? log := by
  funext name
  have hnone : readFor? name exchange = none := by
    rw [Option.eq_none_iff_forall_ne_some]
    intro reference hread
    obtain ⟨r, hr, -⟩ := readFor?_eq_some.mp hread
    exact h reference r hr
  rw [lastRead?_snoc, hnone, Option.none_or]

theorem lastRead?_eq_some {log : List Exchange} {name : String} {reference : Reference}
    (h : lastRead? log name = some reference) :
    ∃ r, reading reference r ∈ log ∧ r.templateName? = some name := by
  obtain ⟨exchange, hmem, hread⟩ := List.exists_of_findSome?_eq_some h
  obtain ⟨r, rfl, hname⟩ := readFor?_eq_some.mp hread
  exact ⟨r, List.mem_reverse.mp hmem, hname⟩

/-- A name for which something was read has a reference that was read last. -/
theorem lastRead?_isSome {log : List Exchange} {name : String} {reference : Reference}
    {r : Resource} (hmem : reading reference r ∈ log) (hname : r.templateName? = some name) :
    (lastRead? log name).isSome := by
  refine List.findSome?_isSome_iff.mpr ⟨_, List.mem_reverse.mpr hmem, ?_⟩
  exact Option.isSome_iff_exists.mpr ⟨reference, readFor?_eq_some.mpr ⟨r, rfl, hname⟩⟩

/-! ### The bindings of a record -/

/-- Give each template the reference found for its name; of two templates with one name only the
later gets it. -/
def assign (found : String → Option Reference) : List Template → List Association
  | [] => []
  | t :: rest =>
    ⟨t, t.name.bind fun name => if ∃ later ∈ rest, later.name = some name then none else found name⟩ ::
      assign found rest

variable {found found' : String → Option Reference} {templates : List Template} {name : String}
  {reference : Reference}

theorem byOrder_nil_eq_assign (templates : List Template) :
    byOrder templates [] = assign (fun _ => none) templates := by
  induction templates with
  | nil => rfl
  | cons t rest ih => simp [byOrder, assign, ih]

theorem assign_congr (h : ∀ t ∈ templates, ∀ name, t.name = some name → found name = found' name) :
    assign found templates = assign found' templates := by
  induction templates with
  | nil => rfl
  | cons t rest ih =>
    obtain ⟨ht, hrest⟩ := List.forall_mem_cons.mp h
    rw [assign, assign, ih hrest]
    congr 2
    cases hname : t.name with
    | none => rfl
    | some name => simp only [Option.bind_some, ht name hname]

/-- A template that is not named gets nothing new. -/
theorem assign_update_of_unnamed (h : ∀ t ∈ templates, t.name ≠ some name) :
    assign (Function.update found name (some reference)) templates = assign found templates := by
  refine assign_congr fun t ht other hother => Function.update_of_ne ?_ _ _
  rintro rfl
  exact h t ht hother

/-- To bind a name is to have found a reference for it, if there is a template to bind. -/
theorem bindName_assign (found : String → Option Reference) (name : String)
    (reference : Reference) (templates : List Template) :
    bindName name reference (assign found templates) =
      if ∃ t ∈ templates, t.name = some name then
        some (assign (Function.update found name (some reference)) templates)
      else none := by
  induction templates with
  | nil => simp [assign, bindName]
  | cons t rest ih =>
    rw [assign, bindName, ih, assign]
    by_cases hrest : ∃ later ∈ rest, later.name = some name
    · have hmem : ∃ t' ∈ t :: rest, t'.name = some name :=
        hrest.imp fun _ h => ⟨List.mem_cons_of_mem _ h.1, h.2⟩
      rw [if_pos hrest, if_pos hmem]
      -- The head has nothing to do with the name, or leaves it to the later template.
      cases hname : t.name with
      | none => rfl
      | some other =>
        by_cases hother : other = name
        · subst hother
          simp only [Option.bind_some, if_pos hrest]
        · simp only [Option.bind_some, Function.update_of_ne hother]
    · have hrest' : ∀ later ∈ rest, later.name ≠ some name := fun later hmem hname =>
        hrest ⟨later, hmem, hname⟩
      rw [if_neg hrest, assign_update_of_unnamed hrest']
      by_cases hname : t.name = some name
      · simpa [hname] using hrest'
      · simpa [hname] using hrest'

/-- What is assigned are the references found for the names of templates. -/
theorem exists_assign_iff :
    (∃ a ∈ assign found templates, a.reference = some reference) ↔
      ∃ t ∈ templates, ∃ name, t.name = some name ∧ found name = some reference := by
  induction templates with
  | nil => simp [assign]
  | cons t rest ih =>
    rw [assign, List.exists_mem_cons_iff, List.exists_mem_cons_iff, ih]
    constructor
    · rintro (hhead | hrest)
      · obtain ⟨name, hname, hfound⟩ := Option.bind_eq_some_iff.mp hhead
        split at hfound
        · cases hfound
        · exact .inl ⟨name, hname, hfound⟩
      · exact .inr hrest
    · rintro (⟨name, hname, hfound⟩ | hrest)
      · by_cases hlater : ∃ later ∈ rest, later.name = some name
        · obtain ⟨later, hmem, hlater⟩ := hlater
          exact .inr ⟨later, hmem, name, hlater, hfound⟩
        · exact .inl (by simpa [hname, hlater] using hfound)
      · exact .inr hrest

/-! ### Going through the references -/

variable {composite : Resource}

theorem turn_assigns {log : List Exchange} :
    (turn composite reference (assign (lastRead? log) templates)).Keeps .recording
      (fun _ _ => True)
      (fun bound? log => match bound? with
        | some bound => bound = assign (lastRead? log) templates
        | none => FallsBack templates log) (fun _ => True) log := by
  refine Attempt.keeps_bind.mpr (Attempt.keeps_find trivial ?_ ?_ fun _ _ _ => trivial)
  · rintro (_ | r) _ rfl
    · have hpassed := lastRead?_silent log ⟨.get reference, .ok none⟩ (by simp [reading])
      exact Attempt.keeps_pure.mpr (congrArg (assign · templates) hpassed.symm)
    · dsimp only
      cases hname : r.templateName? with
      | none => exact Attempt.keeps_pure.mpr (.inr ⟨reference, r, by simp [reading], hname⟩)
      | some name =>
        have hread := lastRead?_reading log reference hname
        simp only [bindName_assign]
        by_cases hbind : ∃ t ∈ templates, t.name = some name
        · simp only [if_pos hbind, ← hread]
          exact Attempt.keeps_pure.mpr rfl
        · -- No template has the name, so that the reading changes no binding.
          have hsame : assign (lastRead? log) templates =
              assign (lastRead? (log ++ [reading reference r])) templates := by
            rw [hread, assign_update_of_unnamed fun t ht hname => hbind ⟨t, ht, hname⟩]
          simp only [if_neg hbind, hsame]
          split
          · refine Attempt.keeps_bind.mpr (Attempt.keeps_asking.mpr ⟨trivial, ?_⟩)
            rintro (e | _) _ rfl
            · trivial
            · have hdelete := lastRead?_silent (log ++ [reading reference r]) (deleting r)
                (by simp [reading, deleting])
              exact congrArg (assign · templates) hdelete.symm
          · exact Attempt.keeps_pure.mpr rfl
  · rintro e _ rfl _
    have hpassed := lastRead?_silent log ⟨.get reference, .error e⟩ (by simp [reading])
    exact Attempt.keeps_pure.mpr (congrArg (assign · templates) hpassed.symm)

theorem collect_assigns {fallback : List Association} {rest : List Reference}
    {log : List Exchange} :
    (collect composite fallback rest (assign (lastRead? log) templates)).Keeps .recording
      (fun _ _ => True)
      (fun associations log => associations = assign (lastRead? log) templates ∨
        FallsBack templates log) (fun _ => True) log := by
  induction rest generalizing log with
  | nil => exact .inl rfl
  | cons reference rest ih =>
    rw [collect_cons]
    refine Attempt.keeps_bind.mpr (turn_assigns.mono ?_ fun _ _ => trivial)
    rintro (_ | bound) log hbound
    · exact .inr hbound
    · obtain rfl := hbound
      exact ih

theorem byName_assigns (composite : Resource) (templates : List Template) :
    (byName composite templates).Keeps .recording (fun _ _ => True)
      (fun associations log => associations = assign (lastRead? log) templates ∨
        FallsBack templates log) (fun _ => True) [] := by
  unfold byName
  split
  · next hanonymous =>
    refine Attempt.keeps_bind.mpr (Attempt.keeps_ofExcept.mpr ?_)
    cases composite.resourceRefs with
    | error e => trivial
    | ok references => exact .inr (.inl (by simpa using hanonymous))
  · refine Attempt.keeps_bind.mpr (Attempt.keeps_ofExcept.mpr ?_)
    cases composite.resourceRefs with
    | error e => trivial
    | ok references =>
      have hnone : lastRead? [] = fun _ => none := rfl
      show (collect composite (byOrder templates references) references _).Keeps _ _ _ _ _
      rw [byOrder_nil_eq_assign, ← hnone]
      exact collect_assigns

/-- What was read through a reference is retained by an association, or is gone. -/
def Retained (associations : List Association) (log : List Exchange) (reference : Reference)
    (r : Resource) : Prop :=
  (∃ a ∈ associations, a.reference = some reference) ∨ ⟨.delete r, .ok ()⟩ ∈ log

/-- No two references lead to resources of one template. -/
def Unrivalled (templates : List Template) (log : List Exchange) : Prop :=
  ∀ t ∈ templates, ∀ name, t.name = some name → ∀ reference r reference' r',
    reading reference r ∈ log → r.templateName? = some name →
    reading reference' r' ∈ log → r'.templateName? = some name → reference = reference'

/-- Which resources matching by name retains, whatever the store does. A resource that the
composite controls is bound to a template or deleted exactly if its template is gone, or if it was
read through the reference that was read last for its template. So none is dropped if no two
references lead to resources of one template. -/
theorem byName_retains_iff {σ : Type} (store : Handler σ) (s : σ) (composite : Resource)
    (templates : List Template) :
    let (result, log) := byNameRecord store s composite templates
    ∀ associations, result = .ok associations → ¬ FallsBack templates log →
      (∀ reference r, ⟨.get reference, .ok (some r)⟩ ∈ log → composite.controls r = true →
        (Retained associations log reference r ↔ Orphan composite templates r ∨
          ∃ t ∈ templates, ∃ name, t.name = some name ∧ lastRead? log name = some reference)) ∧
      (Unrivalled templates log → ∀ reference r, ⟨.get reference, .ok (some r)⟩ ∈ log →
        composite.controls r = true → Retained associations log reference r) := by
  obtain ⟨log, hlog, hassigns, -⟩ := (byName_assigns composite templates).run_logged store s
  obtain ⟨log', hlog', hcollects, hallowed⟩ := (byName_keeps composite templates).run_logged store s
  obtain rfl : log' = log := by simpa [hlog] using hlog'.symm
  simp only [byNameRecord, hlog]
  simp only [List.nil_append] at hassigns hcollects hallowed ⊢
  intro associations hresult hfalls
  rw [hresult] at hassigns hcollects
  have hassociations : associations = assign (lastRead? log') templates :=
    hassigns.resolve_right hfalls
  have hcollected : Collected composite templates log' :=
    (hcollects.resolve_right fun h => hfalls h.1).1
  have hbound (reference : Reference) : (∃ a ∈ associations, a.reference = some reference) ↔
      ∃ t ∈ templates, ∃ name, t.name = some name ∧ lastRead? log' name = some reference := by
    rw [hassociations]
    exact exists_assign_iff
  have hdeleted (reference : Reference) (r : Resource) (hmem : reading reference r ∈ log') :
      ⟨.delete r, .ok ()⟩ ∈ log' ↔ Orphan composite templates r := by
    constructor
    · intro hdelete
      obtain ⟨before, after, hsplit⟩ := List.append_of_mem hdelete
      exact (hallowed before _ after hsplit).1
    · intro horphan
      obtain ⟨before, after, hsplit⟩ := List.append_of_mem hmem
      obtain ⟨rest, rfl⟩ := hcollected before reference r after hsplit horphan
      rw [hsplit]
      simp [deleting]
  have hiff (reference : Reference) (r : Resource) (hmem : reading reference r ∈ log') :
      Retained associations log' reference r ↔ Orphan composite templates r ∨
        ∃ t ∈ templates, ∃ name, t.name = some name ∧ lastRead? log' name = some reference := by
    rw [Retained, hbound, hdeleted reference r hmem, or_comm]
  refine ⟨fun reference r hmem _ => hiff reference r hmem, ?_⟩
  intro hunrivalled reference r hmem hcontrols
  refine (hiff reference r hmem).mpr ?_
  cases hname : r.templateName? with
  | none => exact absurd (.inr ⟨reference, r, hmem, hname⟩) hfalls
  | some name =>
    by_cases hbind : ∃ t ∈ templates, t.name = some name
    · -- Something was read for the template, and all that was read came by this reference.
      obtain ⟨t, ht, htname⟩ := hbind
      obtain ⟨last, hlast⟩ := Option.isSome_iff_exists.mp (lastRead?_isSome hmem hname)
      obtain ⟨r', hmem', hname'⟩ := lastRead?_eq_some hlast
      obtain rfl := hunrivalled t ht name htname _ _ _ _ hmem hname hmem' hname'
      exact .inr ⟨t, ht, name, htname, hlast⟩
    · have hnone : bindName name reference (byOrder templates []) = none := by
        rw [byOrder_nil_eq_assign, bindName_assign, if_neg hbind]
      exact .inl ((orphan_iff composite reference (byOrder_templates templates []) hname).mpr
        ⟨hnone, hcontrols⟩)

/-! ### Two boxes for one template -/

/-- The reference to a box. -/
def boxReference (name : String) : Reference :=
  { apiVersion := some "v1", kind := some "Box", name := some name }

/-- A composite that refers to two boxes. -/
def hoarder : Resource where
  typeMeta := some ⟨"v1", "Loner"⟩
  metadata := { name := some "loner", uid := some "u" }
  body := [("spec", .object [("resourceRefs",
    .array [(boxReference "old").encode, (boxReference "new").encode])])]

/-- A box that the hoarder controls. -/
def hoarded (name : String) : Resource where
  typeMeta := some ⟨"v1", "Box"⟩
  metadata := {
    name := some name, annotations := some [(Resource.templateAnnotation, "box")]
    ownerReferences := some [{
      apiVersion := "v1", kind := "Loner", name := "loner", uid := "u"
      controller := some true }] }

/-- A template for boxes. -/
def boxTemplate : Template := { name := some "box", base := .object [("kind", .string "Box")] }

/-- The store of the two boxes. -/
def hoard : Memory := (({} : Memory).insert (hoarded "old")).insert (hoarded "new")

/-- The resources that were read, with their references. -/
def readings (log : List Exchange) : List (Reference × Resource) :=
  log.filterMap fun
    | ⟨.get reference, .ok (some r)⟩ => some (reference, r)
    | _ => none

/-- An exchange is about a deletion. -/
def deletes : Exchange → Bool
  | ⟨.delete _, _⟩ => true
  | _ => false

theorem mem_readings {log : List Exchange} {reference : Reference} {r : Resource} :
    reading reference r ∈ log ↔ (reference, r) ∈ readings log := by
  unfold readings
  rw [List.mem_filterMap]
  constructor
  · intro h
    exact ⟨_, h, rfl⟩
  · rintro ⟨exchange, hmem, hread⟩
    split at hread
    · obtain ⟨rfl, rfl⟩ := Prod.mk.inj (Option.some.inj hread)
      exact hmem
    · cases hread

/-- What the hoarder's boxes come to: both are read, the new one is bound, and none is deleted. -/
theorem hoarder_record : ∃ log,
    byNameRecord Memory.handler hoard hoarder [boxTemplate] =
      (.ok [⟨boxTemplate, some (boxReference "new")⟩], log) ∧
    readings log = [(boxReference "old", hoarded "old"), (boxReference "new", hoarded "new")] ∧
    ∀ exchange ∈ log, deletes exchange = false := by
  have hrecord : (match byNameRecord Memory.handler hoard hoarder [boxTemplate] with
    | (result, log) => result.toOption = some [⟨boxTemplate, some (boxReference "new")⟩] ∧
      readings log = [(boxReference "old", hoarded "old"), (boxReference "new", hoarded "new")] ∧
      log.all fun exchange => !deletes exchange) := by
    decide +kernel
  generalize byNameRecord Memory.handler hoard hoarder [boxTemplate] = record at hrecord ⊢
  obtain ⟨_ | associations, log⟩ := record
  · exact absurd hrecord.1 (by simp [Except.toOption])
  · obtain ⟨hresult, hreadings, hdeletes⟩ := hrecord
    obtain rfl := Option.some.inj hresult
    exact ⟨log, rfl, hreadings, by simpa using hdeletes⟩

/-- The boxes of the hoarder name their template. -/
theorem not_fallsBack_of_readings {log : List Exchange}
    (h : readings log = [(boxReference "old", hoarded "old"), (boxReference "new", hoarded "new")]) :
    ¬ FallsBack [boxTemplate] log := by
  rintro (⟨t, ht, hname⟩ | ⟨reference, r, hmem, hname⟩)
  · obtain rfl := List.mem_singleton.mp ht
    cases hname
  · rw [mem_readings, h] at hmem
    simp only [List.mem_cons, Prod.mk.injEq, List.not_mem_nil, or_false] at hmem
    obtain ⟨-, rfl⟩ | ⟨-, rfl⟩ := hmem <;> exact absurd hname (by decide)

/-- The new box is retained, as the one that was read last for its template. -/
theorem new_box_retained : ∃ associations log,
    byNameRecord Memory.handler hoard hoarder [boxTemplate] = (.ok associations, log) ∧
      ¬ FallsBack [boxTemplate] log ∧ reading (boxReference "new") (hoarded "new") ∈ log ∧
      hoarder.controls (hoarded "new") = true ∧
      (Retained associations log (boxReference "new") (hoarded "new") ↔
        Orphan hoarder [boxTemplate] (hoarded "new") ∨ ∃ t ∈ [boxTemplate], ∃ name,
          t.name = some name ∧ lastRead? log name = some (boxReference "new")) := by
  obtain ⟨log, hrecord, hreadings, -⟩ := hoarder_record
  have hfalls := not_fallsBack_of_readings hreadings
  have hmem : reading (boxReference "new") (hoarded "new") ∈ log :=
    mem_readings.mpr (by simp [hreadings])
  have hretains := byName_retains_iff Memory.handler hoard hoarder [boxTemplate]
  rw [hrecord] at hretains
  have hcontrols : hoarder.controls (hoarded "new") = true := by decide
  exact ⟨_, log, hrecord, hfalls, hmem, hcontrols,
    (hretains _ rfl hfalls).1 _ _ hmem hcontrols⟩

/-- The old box, which the composite controls as well, is dropped: it is neither bound nor
deleted. -/
theorem old_box_dropped : hoarder.uid ≠ "" ∧ (∀ t ∈ [boxTemplate], t.name ≠ none) ∧
    ∃ associations log,
      byNameRecord Memory.handler hoard hoarder [boxTemplate] = (.ok associations, log) ∧
        ¬ FallsBack [boxTemplate] log ∧
        ∃ reference r, reading reference r ∈ log ∧ hoarder.controls r = true ∧
          ¬ Retained associations log reference r := by
  obtain ⟨log, hrecord, hreadings, hdeletes⟩ := hoarder_record
  refine ⟨by decide, by simp [boxTemplate], _, log, hrecord, not_fallsBack_of_readings hreadings,
    boxReference "old", hoarded "old", mem_readings.mpr (by simp [hreadings]), by decide, ?_⟩
  rintro (⟨a, ha, hreference⟩ | hdelete)
  · obtain rfl := List.mem_singleton.mp ha
    exact absurd hreference (by decide)
  · cases hdeletes _ hdelete

end Association

end ResourceComposition
