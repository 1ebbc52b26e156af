import ResourceComposition.Proofs.Divergence
import ResourceComposition.Revision.Patching

/-!
# The writings of patches

The patches of one direction amount to a list of writings: one for each patch that has a value to
copy (`Patch.writings`). Whether and what they write hangs on where they copy from alone. So they can
be applied to a form exactly if each patch is provided with what it copies, or passes, and the
writings can be made one after the other (`Patch.copyFields_iff`). What each writing keeps is kept by
all patches (`Patch.copyFields_keeps`).
-/

namespace ResourceComposition

/-- A value and the path that it is to be written at. -/
structure Writing where
  /-- The path. -/
  path : FieldPath
  /-- The value. -/
  value : Json
  deriving DecidableEq

namespace Json

variable {w : Writing} {ws late : List Writing} {o z : Option Json} {value after : Json}

/-- Write values one after another to a place that may be missing. It stays missing if there is
nothing to write. -/
def writeAll : List Writing → Option Json → Except FieldPath.Fault (Option Json)
  | [], o => .ok o
  | w :: rest, o => do
    let after ← write w.value w.path (o.getD .null)
    writeAll rest (some after)

theorem writeAll_cons : writeAll (w :: ws) o = .ok z ↔
    ∃ after, write w.value w.path (o.getD .null) = .ok after ∧
      writeAll ws (some after) = .ok z := by
  rw [writeAll]
  cases write w.value w.path (o.getD .null) <;> simp [bind, Except.bind]

theorem writeAll_append : writeAll (ws ++ late) o = .ok z ↔
    ∃ middle, writeAll ws o = .ok middle ∧ writeAll late middle = .ok z := by
  induction ws generalizing o with
  | nil => simp [writeAll]
  | cons w rest ih =>
    simp only [List.cons_append, writeAll_cons, ih]
    constructor
    · rintro ⟨after, hwrite, middle, hrest, hlate⟩
      exact ⟨middle, ⟨after, hwrite, hrest⟩, hlate⟩
    · rintro ⟨middle, ⟨after, hwrite, hrest⟩, hlate⟩
      exact ⟨after, hwrite, middle, hrest, hlate⟩

/-- What is there does not go missing. -/
theorem exists_of_writeAll (h : writeAll ws (some value) = .ok z) : ∃ after, z = some after := by
  induction ws generalizing value with
  | nil => exact ⟨value, (Except.ok.inj h).symm⟩
  | cons w rest ih =>
    obtain ⟨after, -, hrest⟩ := writeAll_cons.mp h
    exact ih hrest

/-- What each writing keeps is kept by all of them. -/
theorem writeAll_keeps {I : Json → Prop} (h : writeAll ws (some value) = .ok (some after))
    (hvalue : I value) (hstep : ∀ w ∈ ws, ∀ form form', I form →
      write w.value w.path form = .ok form' → I form') : I after := by
  induction ws generalizing value with
  | nil =>
    obtain rfl := Option.some.inj (Except.ok.inj h)
    exact hvalue
  | cons w rest ih =>
    obtain ⟨hw, hrest⟩ := List.forall_mem_cons.mp hstep
    obtain ⟨middle, hwrite, h⟩ := writeAll_cons.mp h
    exact ih h (hw value middle hvalue hwrite) hrest

end Json

namespace Patch

variable {source? : PatchType → Option Json} {p : Patch} {patches : List Patch} {place : Nat}
  {source target after v : Json} {path : FieldPath} {w : Writing}

/-! ### One patch -/

/-- A patch has a value to copy, and a path to copy it to. -/
def Copies (p : Patch) (source v : Json) (path : FieldPath) : Prop :=
  ∃ origin, p.fromFieldPath = some origin ∧ source.get? origin = .ok (some v) ∧
    FieldPath.parse (p.toFieldPath.getD origin) = .ok path

/-- There is no value for a patch to copy, and none is required. -/
def Passes (p : Patch) (source : Json) : Prop :=
  ∃ origin, p.fromFieldPath = some origin ∧ source.get? origin = .ok none ∧
    p.sourceRequired = false

/-- As far as what it copies goes, a patch can be applied: if its direction takes part, it has a
value to copy and a path to copy it to, or it passes. -/
def Provided (source? : PatchType → Option Json) (p : Patch) : Prop :=
  ∀ source, source? p.type = some source → (∃ v path, p.Copies source v path) ∨ p.Passes source

/-- What a patch writes, and where to, if it has a value to copy. -/
def writing? (source? : PatchType → Option Json) (p : Patch) : Option Writing := do
  let source ← source? p.type
  let origin ← p.fromFieldPath
  let value ← (source.get? origin).toOption.join
  let path ← (FieldPath.parse (p.toFieldPath.getD origin)).toOption
  return ⟨path, value⟩

theorem Passes.not_copies (h : p.Passes source) : ¬ p.Copies source v path := by
  rintro ⟨origin, horigin, hread, -⟩
  obtain ⟨origin', horigin', hread', -⟩ := h
  obtain rfl := Option.some.inj (horigin.symm.trans horigin')
  rw [hread] at hread'
  cases hread'

theorem writing?_eq_some (hp : source? p.type = some source) :
    p.writing? source? = some w ↔ p.Copies source w.value w.path := by
  obtain ⟨path, value⟩ := w
  simp only [writing?, hp, bind, Option.bind_some, Option.bind_eq_some_iff, Copies,
    Option.join_eq_some_iff, Except.toOption_eq_some, pure, Option.some.injEq, Writing.mk.injEq]
  constructor
  · rintro ⟨origin, horigin, v, hv, _, hparse, rfl, rfl⟩
    exact ⟨origin, horigin, hv, hparse⟩
  · rintro ⟨origin, horigin, hv, hparse⟩
    exact ⟨origin, horigin, value, hv, path, hparse, rfl, rfl⟩

theorem writing?_of_none (hp : source? p.type = none) : p.writing? source? = none := by
  simp [writing?, hp]

theorem Passes.writing? (hp : source? p.type = some source) (h : p.Passes source) :
    p.writing? source? = none :=
  Option.eq_none_iff_forall_ne_some.mpr fun _ hw => h.not_copies ((writing?_eq_some hp).mp hw)

/-- A patch writes the value that it copies, or passes over the form. -/
theorem copyField_iff : p.copyField place source target = .ok after ↔
    (∃ v path, p.Copies source v path ∧ Json.write v path target = .ok after) ∨
      p.Passes source ∧ after = target := by
  unfold copyField Copies Passes
  cases p.fromFieldPath with
  | none => simp
  | some origin =>
    simp only [Option.some.injEq]
    cases hread : source.get? origin with
    | error cause => simp [hread]
    | ok value? =>
      cases value? with
      | none => cases p.sourceRequired <;> simp [hread, eq_comm]
      | some value =>
        have hset : (target.set (p.toFieldPath.getD origin) value).mapError (p.failure place) =
            .ok after ↔ target.set (p.toFieldPath.getD origin) value = .ok after := by
          cases target.set (p.toFieldPath.getD origin) value <;> simp
        simp [hset, hread, Json.set_eq_ok, and_assoc]

/-- Apply a patch, if its direction takes part. -/
def copied (source? : PatchType → Option Json) (p : Patch) (place : Nat) (target : Json) :
    Except CompositionError Json :=
  match source? p.type with
  | some source => p.copyField place source target
  | none => .ok target

/-- A patch can be applied if what it copies is provided and its writing can be made, if it has
one. -/
theorem copied_iff : p.copied source? place target = .ok after ↔ p.Provided source? ∧
    Json.writeAll (p.writing? source?).toList (some target) = .ok (some after) := by
  unfold copied Provided
  cases hp : source? p.type with
  | none => simp [writing?_of_none hp, Json.writeAll]
  | some source =>
    simp only [Option.some.injEq, forall_eq', copyField_iff]
    constructor
    · rintro (⟨v, path, hcopies, hwrite⟩ | ⟨hpasses, rfl⟩)
      · rw [(writing?_eq_some (w := ⟨path, v⟩) hp).mpr hcopies]
        exact ⟨.inl ⟨v, path, hcopies⟩, Json.writeAll_cons.mpr ⟨_, hwrite, rfl⟩⟩
      · rw [hpasses.writing? hp]
        exact ⟨.inr hpasses, rfl⟩
    · rintro ⟨⟨v, path, hcopies⟩ | hpasses, hwritten⟩
      · rw [(writing?_eq_some (w := ⟨path, v⟩) hp).mpr hcopies] at hwritten
        obtain ⟨middle, hwrite, hnil⟩ := Json.writeAll_cons.mp hwritten
        obtain rfl := Option.some.inj (Except.ok.inj hnil)
        exact .inl ⟨v, path, hcopies, hwrite⟩
      · rw [hpasses.writing? hp] at hwritten
        exact .inr ⟨hpasses, (Option.some.inj (Except.ok.inj hwritten)).symm⟩

/-! ### All patches of a direction -/

/-- What patches write, first to last. -/
def writings (source? : PatchType → Option Json) (patches : List Patch) : List Writing :=
  patches.filterMap (writing? source?)

theorem writings_cons : writings source? (p :: patches) =
    (p.writing? source?).toList ++ writings source? patches := by
  rw [writings, List.filterMap_cons]
  cases p.writing? source? <;> rfl

theorem mem_writings : w ∈ writings source? patches ↔ ∃ p ∈ patches, ∃ source,
    source? p.type = some source ∧ p.Copies source w.value w.path := by
  simp only [writings, List.mem_filterMap]
  constructor
  · rintro ⟨p, hp, hw⟩
    cases hsource : source? p.type with
    | none =>
      rw [writing?_of_none hsource] at hw
      cases hw
    | some source => exact ⟨p, hp, source, hsource, (writing?_eq_some hsource).mp hw⟩
  · rintro ⟨p, hp, source, hsource, hcopies⟩
    exact ⟨p, hp, (writing?_eq_some hsource).mpr hcopies⟩

theorem copyFields_cons : copyFields source? place (p :: patches) target =
    (p.copied source? place target).bind (copyFields source? (place + 1) patches) := by
  rw [copyFields, copied]
  cases source? p.type <;> rfl

/-- Patches can be applied if what they copy is provided and their writings can be made, one after
the other. -/
theorem copyFields_iff : copyFields source? place patches target = .ok after ↔
    (∀ p ∈ patches, p.Provided source?) ∧
      Json.writeAll (writings source? patches) (some target) = .ok (some after) := by
  induction patches generalizing place target with
  | nil => simp [copyFields, writings, Json.writeAll]
  | cons p rest ih =>
    rw [copyFields_cons, List.forall_mem_cons, writings_cons, Json.writeAll_append]
    constructor
    · intro h
      cases hfirst : p.copied source? place target with
      | error e =>
        rw [hfirst] at h
        cases h
      | ok middle =>
        rw [hfirst] at h
        obtain ⟨hp, hwrite⟩ := copied_iff.mp hfirst
        obtain ⟨hrest, hwritten⟩ := ih.mp h
        exact ⟨⟨hp, hrest⟩, some middle, hwrite, hwritten⟩
    · rintro ⟨⟨hp, hrest⟩, o, hwrite, hwritten⟩
      obtain ⟨middle, rfl⟩ := Json.exists_of_writeAll hwrite
      rw [copied_iff.mpr ⟨hp, hwrite⟩]
      exact ih.mpr ⟨hrest, hwritten⟩

/-- What each writing keeps is kept by all patches. -/
theorem copyFields_keeps {I : Json → Prop} (h : copyFields source? place patches target = .ok after)
    (htarget : I target) (hstep : ∀ p ∈ patches, ∀ source v path, source? p.type = some source →
      p.Copies source v path → ∀ form form', I form → Json.write v path form = .ok form' → I form') :
    I after := by
  refine Json.writeAll_keeps (copyFields_iff.mp h).2 htarget fun w hw => ?_
  obtain ⟨p, hp, source, hsource, hcopies⟩ := mem_writings.mp hw
  exact hstep p hp source w.value w.path hsource hcopies

/-- A resource to which patches are applied is read from a form into which they copied. -/
theorem applyTo_eq_ok {r r' : Resource} (h : applyTo source? patches r = .ok r') :
    (∃ patched, copyFields source? 0 patches r.encode = .ok patched ∧
      Resource.ofJson patched = .ok r') ∨
    (∀ p ∈ patches, source? p.type = none) ∧ r' = r := by
  unfold applyTo at h
  split at h
  · simp only [bind, Except.bind] at h
    split at h
    · cases h
    · next patched hpatched =>
      refine .inl ⟨patched, hpatched, ?_⟩
      cases hread : Resource.ofJson patched <;> simp_all
  · next hnone => exact .inr ⟨by simpa using hnone, (Except.ok.inj h).symm⟩

end Patch

end ResourceComposition
