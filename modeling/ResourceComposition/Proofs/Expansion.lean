import Mathlib.Data.List.Forall2
import ResourceComposition.Revision.Inlining

/-!
# What patch sets stand for

A list of patches stands for another (`Patch.Expands`): a patch that stands for a set gives way to
all patches of the last set of its name, in the order of the set, and any other patch stays where it
is. Inlining gives each template the list that its own stands for and leaves all else of it alone
(`Revision.inlinedTemplates_eq_ok`). It fails only where there is no such list, because a name is
missing or no set has it, and where a set contains a patch that stands for a set, used or not.

Since no set contains such a patch, none is left in what a list stands for. A list without any stands
for itself, so that inlining what was inlined changes nothing.
-/

namespace ResourceComposition

namespace PatchSet

variable {sets : List PatchSet} {name : String} {patches : List Patch}

/-- A set is the last of its name. -/
def Counts (sets : List PatchSet) (s : PatchSet) : Prop :=
  ∃ before after, sets = before ++ s :: after ∧ ∀ later ∈ after, later.name ≠ s.name

theorem Counts.mem {s : PatchSet} (h : s.Counts sets) : s ∈ sets := by
  obtain ⟨before, after, rfl, -⟩ := h
  simp

theorem lookup?_eq_some : lookup? sets name = some patches ↔
    ∃ s : PatchSet, s.Counts sets ∧ s.name = name ∧ s.patches = patches := by
  simp only [lookup?, Option.map_eq_some_iff, List.find?_eq_some_iff_append, decide_eq_true_eq,
    Bool.not_eq_true', decide_eq_false_iff_not]
  constructor
  · rintro ⟨s, ⟨rfl, after, before, hsplit, hlater⟩, rfl⟩
    have hsets : sets = before.reverse ++ s :: after.reverse := by
      rw [← List.reverse_inj, hsplit]
      simp
    exact ⟨s, ⟨_, _, hsets, fun later hmem => hlater later (List.mem_reverse.mp hmem)⟩, rfl, rfl⟩
  · rintro ⟨s, ⟨before, after, rfl, hlater⟩, rfl, rfl⟩
    exact ⟨s, ⟨rfl, after.reverse, before.reverse, by simp,
      fun later hmem => hlater later (List.mem_reverse.mp hmem)⟩, rfl⟩

/-- If any set has a name, one of them is the last. -/
theorem exists_counts {s : PatchSet} (h : s ∈ sets) :
    ∃ last : PatchSet, last.Counts sets ∧ last.name = s.name := by
  have hfound : (lookup? sets s.name).isSome = true := by
    simp only [lookup?, Option.isSome_map, List.find?_isSome, List.mem_reverse]
    exact ⟨s, h, decide_eq_true rfl⟩
  obtain ⟨patches, hpatches⟩ := Option.isSome_iff_exists.mp hfound
  obtain ⟨last, hlast, hname, -⟩ := lookup?_eq_some.mp hpatches
  exact ⟨last, hlast, hname⟩

end PatchSet

namespace Patch

variable {sets : List PatchSet} {patches expanded : List Patch}

/-- What a list of patches stands for. -/
inductive Expands (sets : List PatchSet) : List Patch → List Patch → Prop where
  /-- No patches stand for none. -/
  | nil : Expands sets [] []
  /-- A patch that copies a field stands for itself. -/
  | copy {p : Patch} {patches expanded : List Patch} (htype : p.type ≠ .patchSet)
      (hrest : Expands sets patches expanded) : Expands sets (p :: patches) (p :: expanded)
  /-- A patch that names a set stands for the patches of the last set of the name. -/
  | expand {p : Patch} {s : PatchSet} {patches expanded : List Patch} (htype : p.type = .patchSet)
      (hname : p.patchSetName = some s.name) (hs : s.Counts sets)
      (hrest : Expands sets patches expanded) : Expands sets (p :: patches) (s.patches ++ expanded)

/-- A list of patches stands for some list exactly if each patch that stands for a set names one. -/
theorem exists_expands_iff : (∃ expanded, Expands sets patches expanded) ↔
    ∀ p ∈ patches, p.type = .patchSet → ∃ s ∈ sets, p.patchSetName = some s.name := by
  constructor
  · rintro ⟨expanded, h⟩
    induction h with
    | nil => exact nofun
    | copy htype _ ih => exact List.forall_mem_cons.mpr ⟨fun h => absurd h htype, ih⟩
    | expand htype hname hs _ ih => exact List.forall_mem_cons.mpr ⟨fun _ => ⟨_, hs.mem, hname⟩, ih⟩
  · intro h
    induction patches with
    | nil => exact ⟨[], .nil⟩
    | cons p rest ih =>
      obtain ⟨hp, hrest⟩ := List.forall_mem_cons.mp h
      obtain ⟨expanded, hexpanded⟩ := ih hrest
      by_cases htype : p.type = .patchSet
      · obtain ⟨s, hs, hname⟩ := hp htype
        obtain ⟨last, hlast, hsame⟩ := PatchSet.exists_counts hs
        exact ⟨_, .expand htype (hsame ▸ hname) hlast hexpanded⟩
      · exact ⟨_, .copy htype hexpanded⟩

/-- If no set contains a patch that stands for a set, no such patch is left. -/
theorem Expands.copies (h : Expands sets patches expanded)
    (hsets : ∀ s ∈ sets, ∀ p ∈ s.patches, p.type ≠ .patchSet) :
    ∀ p ∈ expanded, p.type ≠ .patchSet := by
  induction h with
  | nil => exact nofun
  | copy htype _ ih => exact List.forall_mem_cons.mpr ⟨htype, ih⟩
  | expand _ _ hs _ ih => exact List.forall_mem_append.mpr ⟨hsets _ hs.mem, ih⟩

/-- Patches none of which stands for a set stand for themselves. -/
theorem expands_self (h : ∀ p ∈ patches, p.type ≠ .patchSet) : Expands sets patches patches := by
  induction patches with
  | nil => exact .nil
  | cons p rest ih =>
    obtain ⟨hp, hrest⟩ := List.forall_mem_cons.mp h
    exact .copy hp (ih hrest)

end Patch

namespace Template

variable {sets : List PatchSet} {patches expanded : List Patch} {templates inlined : List Template}

theorem expandPatch_of_copy (displayName : String) {p : Patch} (htype : p.type ≠ .patchSet) :
    expandPatch sets displayName p = .ok [p] := if_neg htype

theorem expandPatch_eq_ok (displayName : String) {p : Patch} (htype : p.type = .patchSet) :
    expandPatch sets displayName p = .ok expanded ↔
      ∃ s : PatchSet, s.Counts sets ∧ p.patchSetName = some s.name ∧ s.patches = expanded := by
  rw [expandPatch, if_pos htype]
  cases p.patchSetName with
  | none => simp
  | some name =>
    simp only [Option.some.injEq, @eq_comm _ name, ← PatchSet.lookup?_eq_some]
    cases PatchSet.lookup? sets name <;> simp

/-- What patches are expanded to is what they stand for. -/
theorem expandPatches_eq_ok (displayName : String) :
    expandPatches sets displayName patches = .ok expanded ↔ Patch.Expands sets patches expanded := by
  induction patches generalizing expanded with
  | nil =>
    constructor
    · intro h
      obtain rfl := Except.ok.inj h
      exact .nil
    · rintro ⟨⟩
      rfl
  | cons p rest ih =>
    have hstep : expandPatches sets displayName (p :: rest) = .ok expanded ↔
        ∃ first more, expandPatch sets displayName p = .ok first ∧
          expandPatches sets displayName rest = .ok more ∧ first ++ more = expanded := by
      rw [expandPatches]
      cases expandPatch sets displayName p <;>
        cases expandPatches sets displayName rest <;> simp [bind, Except.bind, pure, Except.pure]
    rw [hstep]
    constructor
    · rintro ⟨first, more, hfirst, hmore, rfl⟩
      by_cases htype : p.type = .patchSet
      · obtain ⟨s, hs, hname, rfl⟩ := (expandPatch_eq_ok _ htype).mp hfirst
        exact .expand htype hname hs (ih.mp hmore)
      · obtain rfl := Except.ok.inj ((expandPatch_of_copy _ htype).symm.trans hfirst)
        exact .copy htype (ih.mp hmore)
    · intro h
      cases h with
      | copy htype hrest => exact ⟨[p], _, expandPatch_of_copy _ htype, ih.mpr hrest, rfl⟩
      | expand htype hname hs hrest =>
        exact ⟨_, _, (expandPatch_eq_ok _ htype).mpr ⟨_, hs, hname, rfl⟩, ih.mpr hrest, rfl⟩

/-- A template is another with its patches expanded and all else unchanged. -/
def Expands (sets : List PatchSet) (t expanded : Template) : Prop :=
  ∃ patches, Patch.Expands sets t.patches patches ∧ expanded = { t with patches }

theorem inlined_eq_ok {t expanded : Template} (place : Nat) :
    t.inlined sets place = .ok expanded ↔ t.Expands sets expanded := by
  simp only [Expands, ← expandPatches_eq_ok (t.displayName place), inlined]
  cases expandPatches sets (t.displayName place) t.patches <;>
    simp [bind, Except.bind, pure, Except.pure, eq_comm]

/-- A template can be expanded exactly if each of its patches that stands for a set names one. -/
theorem exists_expands_iff {t : Template} : (∃ expanded, t.Expands sets expanded) ↔
    ∀ p ∈ t.patches, p.type = .patchSet → ∃ s ∈ sets, p.patchSetName = some s.name := by
  rw [← Patch.exists_expands_iff]
  constructor
  · rintro ⟨_, patches, hpatches, -⟩
    exact ⟨patches, hpatches⟩
  · rintro ⟨patches, hpatches⟩
    exact ⟨_, patches, hpatches, rfl⟩

/-- Templates can be expanded exactly if each of them can. -/
theorem exists_all_expand_iff : (∃ inlined, List.Forall₂ (Expands sets) templates inlined) ↔
    ∀ t ∈ templates, ∃ expanded, t.Expands sets expanded := by
  induction templates with
  | nil => simp
  | cons t rest ih =>
    simp only [List.forall₂_cons_left_iff, List.forall_mem_cons, ← ih]
    constructor
    · rintro ⟨_, expanded, more, ht, hrest, -⟩
      exact ⟨⟨expanded, ht⟩, more, hrest⟩
    · rintro ⟨⟨expanded, ht⟩, more, hrest⟩
      exact ⟨_, expanded, more, ht, hrest, rfl⟩

/-- If no set contains a patch that stands for a set, none is left in expanded templates. -/
theorem copies_of_expands (h : List.Forall₂ (Expands sets) templates inlined)
    (hsets : ∀ s ∈ sets, ∀ p ∈ s.patches, p.type ≠ .patchSet) :
    ∀ t ∈ inlined, ∀ p ∈ t.patches, p.type ≠ .patchSet := by
  induction h with
  | nil => exact nofun
  | cons ht _ ih =>
    obtain ⟨patches, hpatches, rfl⟩ := ht
    exact List.forall_mem_cons.mpr ⟨hpatches.copies hsets, ih⟩

theorem inlinedFrom_eq_ok (place : Nat) : inlinedFrom sets place templates = .ok inlined ↔
    List.Forall₂ (Expands sets) templates inlined := by
  induction templates generalizing place inlined with
  | nil => simp [inlinedFrom, eq_comm]
  | cons t rest ih =>
    rw [List.forall₂_cons_left_iff, inlinedFrom]
    simp only [← inlined_eq_ok place, ← ih (place + 1)]
    cases t.inlined sets place <;> cases inlinedFrom sets (place + 1) rest <;>
      simp [bind, Except.bind, pure, Except.pure, eq_comm]

end Template

namespace Revision

variable {r : Revision} {templates : List Template}

/-- No set of a revision, used or not, contains a patch that stands for a set. -/
def Flat (r : Revision) : Prop := ∀ s ∈ r.patchSets, ∀ p ∈ s.patches, p.type ≠ .patchSet

/-- Inlining gives a revision's templates with their patches expanded, if the sets are flat. -/
theorem inlinedTemplates_eq_ok : r.inlinedTemplates = .ok templates ↔
    r.Flat ∧ List.Forall₂ (Template.Expands r.patchSets) r.templates templates := by
  have hflat : r.patchSets.find? PatchSet.isNested = none ↔ r.Flat := by
    simp [Flat, PatchSet.isNested]
  rw [inlinedTemplates, ← hflat]
  cases r.patchSets.find? PatchSet.isNested with
  | some nested => simp
  | none => simpa using Template.inlinedFrom_eq_ok 0

/-- Patch sets can be inlined exactly if none of them, used or not, contains a patch that stands for a
set, and each such patch of a template names one of them. Each template then has its patches expanded
and is otherwise as it was. No patch that stands for a set remains, and inlining the same sets again
changes nothing. -/
theorem inlinedTemplates_expands (r : Revision) :
    ((∃ templates, r.inlinedTemplates = .ok templates) ↔
      r.Flat ∧ ∀ t ∈ r.templates, ∀ p ∈ t.patches, p.type = .patchSet →
        ∃ s ∈ r.patchSets, p.patchSetName = some s.name) ∧
    ∀ templates, r.inlinedTemplates = .ok templates →
      List.Forall₂ (Template.Expands r.patchSets) r.templates templates ∧
      (∀ t ∈ templates, ∀ p ∈ t.patches, p.type ≠ .patchSet) ∧
      { r with templates }.inlinedTemplates = .ok templates := by
  constructor
  · simp only [inlinedTemplates_eq_ok, exists_and_left, Template.exists_all_expand_iff,
      Template.exists_expands_iff]
  · intro templates h
    obtain ⟨hflat, hexpand⟩ := inlinedTemplates_eq_ok.mp h
    have hcopies := Template.copies_of_expands hexpand hflat
    refine ⟨hexpand, hcopies, inlinedTemplates_eq_ok.mpr ⟨hflat, ?_⟩⟩
    exact List.forall₂_same.mpr fun t ht => ⟨t.patches, Patch.expands_self (hcopies t ht), rfl⟩

/-- Of two sets with one name the later counts, an empty set leaves nothing, and a set can be used
twice. -/
theorem tags_expanded :
    let region : Patch := { fromFieldPath := some "spec.region" }
    let size : Patch := { fromFieldPath := some "spec.size" }
    let owner : Patch := { type := .fromEnvironment, fromFieldPath := some "owner" }
    let use (name : String) : Patch := { type := .patchSet, patchSetName := some name }
    let r : Revision := {
      patchSets := [⟨"tags", [size]⟩, ⟨"none", []⟩, ⟨"tags", [region, owner]⟩, ⟨"unused", [size]⟩]
      templates := [
        { name := some "box", patches := [use "tags", size, use "none", use "tags"] },
        { base := .int 1 }] }
    let templates : List Template := [
      { name := some "box", patches := [region, owner, size, region, owner] }, { base := .int 1 }]
    r.inlinedTemplates = .ok templates ∧
      List.Forall₂ (Template.Expands r.patchSets) r.templates templates ∧
      { r with templates }.inlinedTemplates = .ok templates := by
  intro region size owner use r templates
  have hinlined : r.inlinedTemplates = .ok templates := by decide +kernel
  obtain ⟨hexpand, -, hagain⟩ := (inlinedTemplates_expands r).2 templates hinlined
  exact ⟨hinlined, hexpand, hagain⟩

end Revision

end ResourceComposition
