import ResourceComposition.Proofs.Collection
import ResourceComposition.Proofs.Soundness

/-!
# Binding templates to slots

In a sound state, matching by name binds each template to its slot, if the slot is full, and empties
the slots whose templates are gone. It never falls back to the match by place: what is stored in a
slot names the template of the slot.
-/

namespace ResourceComposition

open Resource

namespace Association

/-- Binding a name among templates that are told apart by their names. -/
theorem bindName_map {name : String} {reference : Reference} {templates : List Template}
    {f : Template → Option Reference} (hnames : (templates.map (·.name)).Nodup) :
    bindName name reference (templates.map fun t => ⟨t, f t⟩) =
      if some name ∈ templates.map (·.name) then
        some (templates.map fun t => ⟨t, if t.name = some name then some reference else f t⟩)
      else none := by
  induction templates with
  | nil => rfl
  | cons t rest ih =>
    obtain ⟨hfirst, hrest⟩ := List.nodup_cons.mp hnames
    rw [List.map_cons, bindName, ih hrest]
    by_cases hmem : some name ∈ rest.map (·.name)
    · have ht : t.name ≠ some name := fun heq =>
        hfirst (show t.name ∈ rest.map (·.name) from heq ▸ hmem)
      simp [hmem, ht]
    · by_cases ht : t.name = some name
      · have hothers : ∀ t' ∈ rest, t'.name ≠ some name := fun t' ht' heq =>
          hmem (List.mem_map.mpr ⟨t', ht', heq⟩)
        simp only [hmem, if_false, ht, if_true, List.map_cons, List.mem_cons, true_or,
          Option.some.injEq, List.cons.injEq, true_and]
        exact List.map_congr_left fun t' ht' => by rw [if_neg (hothers t' ht')]
      · simp [hmem, ht, Ne.symm ht]

end Association

namespace Ledger

/-- The slot of a template, if it is full. -/
def slotOf (slots : List Slot) (s : Ledger) (name : Option String) : Option Slot :=
  slots.find? fun slot => some slot.template = name ∧ (s.lookup? slot.key).isSome

/-- The templates with references to their slots. -/
def bound (slots : List Slot) (s : Ledger) (templates : List Template) : List Association :=
  templates.map fun t => ⟨t, (s.slotOf slots t.name).map Slot.reference⟩

variable {owner : Owner} {version : String → String} {still : Prop} {slots done rest : List Slot}
  {slot : Slot} {s after : Ledger} {name : Option String} {templates : List Template}
  {composite : Resource}

theorem slotOf_eq_some (h : s.slotOf slots name = some slot) :
    slot ∈ slots ∧ some slot.template = name ∧ s.Has slot.key := by
  have := List.find?_some h
  exact ⟨List.mem_of_find?_eq_some h, by simpa [Has] using this⟩

theorem slotOf_of_mem (h : s.Sound owner version still slots) (hslot : slot ∈ slots)
    (hfull : s.Has slot.key) : s.slotOf slots (some slot.template) = some slot := by
  cases hfind : s.slotOf slots (some slot.template) with
  | none =>
    have := List.find?_eq_none.mp hfind slot hslot
    simp_all [Has]
  | some other =>
    obtain ⟨hother, htemplate, -⟩ := slotOf_eq_some hfind
    rw [h.eq_of_template hother hslot (Option.some.inj htemplate)]

/-- If there is a template for each slot, in order, and all slots are full, each template has its slot. -/
theorem map_slotOf (h : s.Sound owner version still slots) (hfull : ∀ slot ∈ slots, s.Has slot.key)
    (hnames : templates.map (·.name) = slots.map fun slot => some slot.template) :
    slots.map some = templates.map fun t => s.slotOf slots t.name := by
  calc slots.map some
      = slots.map fun slot => s.slotOf slots (some slot.template) :=
        List.map_congr_left fun slot hslot => (slotOf_of_mem h hslot (hfull slot hslot)).symm
    _ = (slots.map fun slot => some slot.template).map (s.slotOf slots) := by
        rw [List.map_map, Function.comp_def]
    _ = templates.map fun t => s.slotOf slots t.name := by
        rw [← hnames, List.map_map, Function.comp_def]

theorem slotOf_congr (h : ∀ slot ∈ slots, after.lookup? slot.key = s.lookup? slot.key)
    (name : Option String) : after.slotOf slots name = s.slotOf slots name := by
  unfold slotOf
  induction slots with
  | nil => rfl
  | cons slot rest ih =>
    obtain ⟨hslot, hrest⟩ := List.forall_mem_cons.mp h
    rw [List.find?_cons, List.find?_cons, hslot, ih hrest]

theorem bound_congr (h : ∀ slot ∈ slots, after.lookup? slot.key = s.lookup? slot.key) :
    after.bound slots templates = s.bound slots templates :=
  List.map_congr_left fun t _ => by rw [slotOf_congr h]

/-- An empty slot binds nothing. -/
theorem bound_append_empty (h : s.lookup? slot.key = none) :
    s.bound (done ++ [slot]) templates = s.bound done templates := by
  refine List.map_congr_left fun t _ => ?_
  rw [slotOf, List.find?_append]
  simp [h, slotOf]

/-- A full slot binds its template. -/
theorem bindName_bound (hnames : (templates.map (·.name)).Nodup)
    (htemplate : slot.template ∉ done.map Slot.template) (hfull : s.Has slot.key) :
    Association.bindName slot.template slot.reference (s.bound done templates) =
      if some slot.template ∈ templates.map (·.name) then
        some (s.bound (done ++ [slot]) templates)
      else none := by
  rw [bound, Association.bindName_map hnames]
  refine if_congr Iff.rfl (congrArg some (List.map_congr_left fun t _ => ?_)) rfl
  rw [slotOf, slotOf, List.find?_append]
  by_cases ht : t.name = some slot.template
  · have hnone : done.find? (fun slot => some slot.template = t.name ∧
        (s.lookup? slot.key).isSome) = none := by
      refine List.find?_eq_none.mpr fun other hother heq => htemplate ?_
      simp only [ht, Option.some.injEq, Bool.decide_and, Bool.and_eq_true,
        decide_eq_true_eq] at heq
      exact List.mem_map.mpr ⟨other, hother, heq.1⟩
    rw [if_pos ht, hnone]
    simp [ht, show (s.lookup? slot.key).isSome = true from hfull]
  · rw [if_neg ht]
    simp [Ne.symm ht]

/-! ### Going through the references -/

/-- Every full slot is for one of the templates. -/
def Matched (slots : List Slot) (templates : List Template) (s : Ledger) : Prop :=
  ∀ slot ∈ slots, s.Has slot.key → some slot.template ∈ templates.map (·.name)

/-- What is wanted of an association: the templates are bound to their slots, and all other slots
are empty. -/
def Binds (owner : Owner) (version : String → String) (still : Prop) (slots : List Slot)
    (templates : List Template) (associations : List Association) (s : Ledger) : Prop :=
  s.Sound owner version still slots ∧ Matched slots templates s ∧
    associations = s.bound slots templates

theorem Matched.append (h : Matched done templates s)
    (hslot : s.Has slot.key → some slot.template ∈ templates.map (·.name)) :
    Matched (done ++ [slot]) templates s := by
  intro other hother
  obtain hother | hother := List.mem_append.mp hother
  · exact h other hother
  · obtain rfl := List.mem_singleton.mp hother
    exact hslot

theorem collect_binds {fallback : List Association} (hcomposite : owner.Of composite)
    (hnames : (templates.map (·.name)).Nodup)
    (hstill : still → ∀ slot ∈ slots, some slot.template ∈ templates.map (·.name))
    (hsplit : slots = done ++ rest) (hsound : s.Sound owner version still slots)
    (hmatched : Matched done templates s) :
    (Association.collect composite fallback (rest.map Slot.reference)
      (s.bound done templates)).Keeps Serves (Permits owner version still slots)
        (Binds owner version still slots templates)
        (fun after => after.Sound owner version still slots) s := by
  induction rest generalizing done s with
  | nil =>
    obtain rfl : slots = done := by simpa using hsplit
    exact Attempt.keeps_pure.mpr ⟨hsound, hmatched, rfl⟩
  | cons slot rest ih =>
    have hslot : slot ∈ slots := by simp [hsplit]
    have hsplit' : slots = (done ++ [slot]) ++ rest := by simp [hsplit]
    have hnext (after : Ledger) (hafter : after.Sound owner version still slots)
        (hmatched : Matched (done ++ [slot]) templates after) :=
      ih hsplit' hafter hmatched
    rw [List.map_cons, Association.collect]
    refine Attempt.keeps_bind.mpr (find_keeps (hsound.permits trivial) hsound (fun hlookup => ?_)
      fun form r hlookup hread => ?_)
    · -- The slot is empty: its reference is passed over.
      have := hnext s hsound (hmatched.append fun hhas => by simp_all [Has])
      rwa [bound_append_empty hlookup] at this
    · have hr := (hsound.held slot hslot form hlookup).read hread
      have hhas : s.Has slot.key := by simpa [Has] using congrArg Option.isSome hlookup
      have htemplate : slot.template ∉ done.map Slot.template := by
        have := hsound.templates
        rw [hsplit, List.map_append, List.map_cons] at this
        exact fun hmem => (List.nodup_append.mp this).2.2 _ hmem _ List.mem_cons_self rfl
      simp only [hr.templateName, bindName_bound hnames htemplate hhas]
      split
      · next more hmore =>
        split at hmore
        · next hmem =>
          obtain rfl := Option.some.inj hmore
          exact hnext s hsound (hmatched.append fun _ => hmem)
        · cases hmore
      · next hnone =>
        have hmem : some slot.template ∉ templates.map (·.name) := fun hmem => by
          simp [hmem] at hnone
        have hnot : ¬ still := fun h => hmem (hstill h slot hslot)
        rw [if_pos (hcomposite.controls_iff.mpr hr.owned)]
        refine Attempt.keeps_bind.mpr (Attempt.keeps_asking.mpr
          ⟨⟨slots, hsound, fun h => absurd h hnot⟩, ?_⟩)
        intro reply removed hreply
        obtain ⟨rfl, e, rfl⟩ | ⟨rfl, rfl⟩ := of_delete hreply
        · exact hsound
        · rw [hr.key]
          have hempty : (s.remove slot.key).lookup? slot.key = none := by
            rw [lookup?_remove, if_pos rfl]
          have hdone (other : Slot) (hother : other ∈ done) :
              (s.remove slot.key).lookup? other.key = s.lookup? other.key := by
            rw [lookup?_remove, if_neg fun hkey => htemplate ?_]
            rw [← hsound.eq_of_key (by simp [hsplit, hother]) hslot hkey]
            exact List.mem_map_of_mem hother
          have := hnext _ (hsound.remove hnot hslot) (Matched.append
            (fun other hother hhas => hmatched other hother (by rwa [Has, hdone other hother] at hhas))
            fun hhas => by simp_all [Has])
          rwa [bound_append_empty hempty, bound_congr hdone] at this

/-- Matching by name in a sound state. -/
theorem byName_binds (hcomposite : owner.Of composite)
    (hspec : composite.spec.Holds (slots.map Slot.reference))
    (hnamed : ∀ t ∈ templates, t.name ≠ none) (hnames : (templates.map (·.name)).Nodup)
    (hstill : still → ∀ slot ∈ slots, some slot.template ∈ templates.map (·.name))
    (hsound : s.Sound owner version still slots) :
    (Association.byName composite templates).Keeps Serves (Permits owner version still slots)
      (Binds owner version still slots templates)
      (fun after => after.Sound owner version still slots) s := by
  have hnone : s.bound [] templates = Association.byOrder templates [] := by
    clear hnames hstill hnamed
    induction templates with
    | nil => rfl
    | cons t rest ih => rw [Association.byOrder, ← ih]; rfl
  unfold Association.byName
  rw [if_neg (by simpa [Option.isNone_iff_eq_none] using hnamed)]
  refine Attempt.keeps_bind.mpr (Attempt.keeps_ofExcept.mpr ?_)
  rw [resourceRefs_eq_ok.mpr hspec.held, ← hnone]
  exact collect_binds hcomposite hnames hstill rfl hsound (by simp [Matched])

end Ledger

end ResourceComposition
