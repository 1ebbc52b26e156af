import ResourceComposition.Proofs.Rewriting

/-!
# Patches in any order

Two values are written at paths that part where both have a field, or both an index. Which of them
is written first makes no difference, neither to the result nor to whether there is one
(`Json.write_comm`). Parents that both paths share are made by whichever comes first, and a list is
filled up to the greater of two indexes either way.

It follows for any number of such writings in any order (`Json.writeAll_perm`). Whether a patch has
something to write, or may pass, does not depend on the form that it is applied to. So patches with
such destinations can be applied in any order (`Patch.applied_in_any_order`).
-/

namespace ResourceComposition

namespace Json

variable {value v v' middle after : Json} {name : String} {position : Nat} {path other : FieldPath}
  {ws ws' : List Writing} {o z : Option Json}

/-! ### Items put into a list -/

/-- Of two items that are put in one place the later stands there. -/
theorem placed_placed (items : List Json) (position : Nat) (v v' : Json) :
    placed (placed items position v) position v' = placed items position v' := by
  refine ext_items ?_ fun other => ?_
  · simp only [length_placed, Nat.max_assoc, Nat.max_self]
  · simp only [getD_placed]
    split <;> rfl

/-- The order in which items are put in two places does not matter. -/
theorem placed_comm {position position' : Nat} (h : position ≠ position') (items : List Json)
    (v v' : Json) : placed (placed items position v) position' v' =
      placed (placed items position' v') position v := by
  refine ext_items ?_ fun other => ?_
  · simp only [length_placed, Nat.max_right_comm]
  · simp only [getD_placed]
    split
    · next heq => rw [if_neg fun heq' => h (heq'.trans heq.symm)]
    · rfl

/-! ### Two writings -/

/-- Whether a value can be made an object for writing does not depend on the field. -/
theorem fieldsForWriting_congr {fields : Dict Json} (h : fieldsForWriting name value = .ok fields)
    (name' : String) : fieldsForWriting name' value = .ok fields := by
  cases value <;> first | exact h | cases h

/-- Whether a value can be made a list for writing does not depend on the index. -/
theorem itemsForWriting_congr {items : List Json} (h : itemsForWriting position value = .ok items)
    (position' : Nat) : itemsForWriting position' value = .ok items := by
  cases value <;> first | exact h | cases h

/-- The order of two writings at paths that part does not matter. -/
theorem write_comm (hdiverge : path.Diverge other) (h : write v path value = .ok middle)
    (h' : write v' other middle = .ok after) :
    ∃ middle', write v' other value = .ok middle' ∧ write v path middle' = .ok after := by
  induction hdiverge generalizing value middle after with
  | @fields name name' rest rest' hne =>
    obtain ⟨fields, child, hfields, hchild, rfl⟩ := write_field_eq_ok.mp h
    obtain ⟨_, child', ⟨⟩, hchild', rfl⟩ := write_field_eq_ok.mp h'
    rw [Dict.get?_insert_of_ne _ _ hne] at hchild'
    refine ⟨.object (fields.insert name' child'), write_field_eq_ok.mpr
      ⟨fields, child', fieldsForWriting_congr hfields name', hchild', rfl⟩, ?_⟩
    refine write_field_eq_ok.mpr ⟨fields.insert name' child', child, rfl, ?_, ?_⟩
    · rwa [Dict.get?_insert_of_ne _ _ hne.symm]
    · rw [Dict.insert_comm hne]
  | @indexes position position' rest rest' hne =>
    obtain ⟨items, child, hitems, hchild, rfl⟩ := write_index_eq_ok.mp h
    obtain ⟨_, child', ⟨⟩, hchild', rfl⟩ := write_index_eq_ok.mp h'
    rw [← placed, getD_placed, if_neg hne] at hchild'
    refine ⟨.array (placed items position' child'), write_index_eq_ok.mpr
      ⟨items, child', itemsForWriting_congr hitems position', hchild', rfl⟩, ?_⟩
    refine write_index_eq_ok.mpr ⟨placed items position' child', child, rfl, ?_, ?_⟩
    · rwa [getD_placed, if_neg hne.symm]
    · exact congrArg Json.array (placed_comm hne items child child')
  | @shared segment rest rest' _ ih =>
    -- What the first writing put below the segment is replaced, so only the last child counts.
    cases segment with
    | field name =>
      obtain ⟨fields, child, hfields, hchild, rfl⟩ := write_field_eq_ok.mp h
      obtain ⟨_, child', ⟨⟩, hchild', rfl⟩ := write_field_eq_ok.mp h'
      rw [Dict.get?_insert_self] at hchild'
      obtain ⟨between, hbetween, hlast⟩ := ih hchild hchild'
      refine ⟨.object (fields.insert name between),
        write_field_eq_ok.mpr ⟨fields, between, hfields, hbetween, rfl⟩, ?_⟩
      refine write_field_eq_ok.mpr ⟨fields.insert name between, child', rfl, ?_, ?_⟩
      · rwa [Dict.get?_insert_self]
      · rw [Dict.insert_insert, Dict.insert_insert]
    | index position =>
      obtain ⟨items, child, hitems, hchild, rfl⟩ := write_index_eq_ok.mp h
      obtain ⟨_, child', ⟨⟩, hchild', rfl⟩ := write_index_eq_ok.mp h'
      rw [← placed, getD_placed, if_pos rfl] at hchild'
      obtain ⟨between, hbetween, hlast⟩ := ih hchild hchild'
      refine ⟨.array (placed items position between),
        write_index_eq_ok.mpr ⟨items, between, hitems, hbetween, rfl⟩, ?_⟩
      refine write_index_eq_ok.mpr ⟨placed items position between, child', rfl, ?_, ?_⟩
      · rwa [getD_placed, if_pos rfl]
      · exact congrArg Json.array ((placed_placed items position child child').trans
          (placed_placed items position between child').symm)

/-! ### Any number of writings -/

/-- Writings at paths that part from each other can be made in any order. -/
theorem writeAll_perm (hperm : ws.Perm ws') (hws : ws.Pairwise (·.path.Diverge ·.path))
    (h : writeAll ws o = .ok z) : writeAll ws' o = .ok z := by
  induction hperm generalizing o with
  | nil => exact h
  | cons w _ ih =>
    obtain ⟨after, hwrite, hrest⟩ := writeAll_cons.mp h
    exact writeAll_cons.mpr ⟨after, hwrite, ih hws.of_cons hrest⟩
  | swap w w' rest =>
    obtain ⟨middle, hwrite', hrest⟩ := writeAll_cons.mp h
    obtain ⟨after, hwrite, hrest⟩ := writeAll_cons.mp hrest
    have hdiverge : w'.path.Diverge w.path := List.rel_of_pairwise_cons hws List.mem_cons_self
    obtain ⟨middle', hfirst, hsecond⟩ := write_comm hdiverge hwrite' hwrite
    exact writeAll_cons.mpr ⟨middle', hfirst, writeAll_cons.mpr ⟨after, hsecond, hrest⟩⟩
  | trans hperm _ ih ih' =>
    exact ih' (hperm.pairwise hws FieldPath.Diverge.symm) (ih hws h)

end Json

/-! ### Patches -/

namespace Patch

variable {source? : PatchType → Option Json} {p : Patch} {patches patches' : List Patch}
  {place place' : Nat} {target after : Json} {w : Writing}

/-- The path that a patch writes to. It is the one that it copies from if no other is given. -/
def destination? (p : Patch) : Option FieldPath := do
  let text ← p.toFieldPath <|> p.fromFieldPath
  (FieldPath.parse text).toOption

/-- The patches of a direction write at paths that part from each other where both have a field, or
both an index. -/
def Independent (source? : PatchType → Option Json) (patches : List Patch) : Prop :=
  patches.Pairwise fun p q => (source? p.type).isSome → (source? q.type).isSome →
    ∀ path ∈ p.destination?, ∀ other ∈ q.destination?, path.Diverge other

instance (source? : PatchType → Option Json) (patches : List Patch) :
    Decidable (Independent source? patches) :=
  inferInstanceAs (Decidable (patches.Pairwise _))

/-- A patch writes at its destination. -/
theorem destination?_of_writing? (h : p.writing? source? = some w) :
    (source? p.type).isSome = true ∧ p.destination? = some w.path := by
  cases hp : source? p.type with
  | none =>
    rw [writing?_of_none hp] at h
    cases h
  | some source =>
    obtain ⟨origin, horigin, -, hparse⟩ := (writing?_eq_some hp).mp h
    refine ⟨rfl, ?_⟩
    have htext : (p.toFieldPath <|> p.fromFieldPath) = some (p.toFieldPath.getD origin) := by
      rw [horigin]
      cases p.toFieldPath <;> rfl
    simp [destination?, htext, hparse, Except.toOption]

theorem Independent.writings (h : Independent source? patches) :
    (writings source? patches).Pairwise (·.path.Diverge ·.path) := by
  refine List.Pairwise.filterMap _ (fun p q hdiverge w hw w' hw' => ?_) h
  obtain ⟨hp, hpath⟩ := destination?_of_writing? hw
  obtain ⟨hq, hother⟩ := destination?_of_writing? hw'
  exact hdiverge hp hq _ hpath _ hother

theorem Independent.perm (h : Independent source? patches) (hperm : patches.Perm patches') :
    Independent source? patches' := by
  refine hperm.pairwise h fun hdiverge hq hp other hother path hpath => ?_
  exact (hdiverge hp hq path hpath other hother).symm

/-- Independent patches can be applied to a form in any order. -/
theorem copyFields_perm (hperm : patches.Perm patches') (hind : Independent source? patches)
    (h : copyFields source? place patches target = .ok after) :
    copyFields source? place' patches' target = .ok after := by
  obtain ⟨hprovided, hwritten⟩ := copyFields_iff.mp h
  refine copyFields_iff.mpr ⟨fun p hp => hprovided p (hperm.mem_iff.mpr hp), ?_⟩
  exact Json.writeAll_perm (hperm.filterMap _) hind.writings hwritten

/-- Independent patches can be applied to a resource in any order. -/
theorem applyTo_perm {r r' : Resource} (hperm : patches.Perm patches')
    (hind : Independent source? patches) (h : applyTo source? patches r = .ok r') :
    applyTo source? patches' r = .ok r' := by
  unfold applyTo at h ⊢
  rw [hperm.any_eq] at h
  split at h
  · next htakes =>
    cases hcopied : copyFields source? 0 patches r.encode with
    | error e =>
      rw [hcopied] at h
      cases h
    | ok patched =>
      rw [if_pos htakes, copyFields_perm hperm hind hcopied]
      rwa [hcopied] at h
  · next hnone => rwa [if_neg hnone]

/-- Patches whose destinations part from each other where both have a field, or both an index, can
be applied in any order, to a composed resource or to the composite. Either all orders lead to the
same resource, or all fail. -/
theorem applied_in_any_order (hperm : patches.Perm patches') (composite composed : Resource)
    (environment : Json) :
    (Independent (composedSource composite environment) patches → ∀ r,
      applyToComposed patches composite environment composed = .ok r ↔
        applyToComposed patches' composite environment composed = .ok r) ∧
    (Independent (compositeSource composed) patches → ∀ r,
      applyToComposite patches composed composite = .ok r ↔
        applyToComposite patches' composed composite = .ok r) := by
  constructor
  · intro hind r
    exact ⟨applyTo_perm hperm hind, applyTo_perm hperm.symm (hind.perm hperm)⟩
  · intro hind r
    exact ⟨applyTo_perm hperm hind, applyTo_perm hperm.symm (hind.perm hperm)⟩

/-- To the composed resource, one patch makes a list that another fills up further. To the
composite, two patches share the object that they make. The patches of one direction do not care
about the others. -/
theorem tags_in_any_order :
    let composite : Resource := {
      typeMeta := some ⟨"v1", "Tagger"⟩, body := [("spec", .object [("key", .string "a")])] }
    let composed : Resource := {
      typeMeta := some ⟨"v1", "Box"⟩
      body := [("spec", .object [("size", .int 3), ("tags", .null)])] }
    let environment : Json := .object [("region", .string "north")]
    let key : Patch := { fromFieldPath := some "spec.key", toFieldPath := some "spec.tags[0].key" }
    let region : Patch := {
      type := .fromEnvironment, fromFieldPath := some "region", toFieldPath := some "spec.tags[2]" }
    let size : Patch := {
      type := .toComposite, fromFieldPath := some "spec.size", toFieldPath := some "status.size" }
    let kind : Patch := {
      type := .toComposite, fromFieldPath := some "kind", toFieldPath := some "status.kind" }
    let tags : Json := .array [.object [("key", .string "a")], .null, .string "north"]
    let patched : Resource := {
      composed with body := [("spec", .object [("size", .int 3), ("tags", tags)])] }
    let status : Json := .object [("kind", .string "Box"), ("size", .int 3)]
    let filled : Resource := { composite with body := composite.body ++ [("status", status)] }
    applyToComposed [key, region, size, kind] composite environment composed = .ok patched ∧
      applyToComposed [kind, region, key, size] composite environment composed = .ok patched ∧
      applyToComposite [key, region, size, kind] composed composite = .ok filled ∧
      applyToComposite [kind, region, key, size] composed composite = .ok filled := by
  intro composite composed environment key region size kind tags patched status filled
  have hperm : [key, region, size, kind].Perm [kind, region, key, size] := by decide
  have hdown : Independent (composedSource composite environment) [key, region, size, kind] := by
    decide
  have hup : Independent (compositeSource composed) [key, region, size, kind] := by decide
  have hpatched : applyToComposed [key, region, size, kind] composite environment composed =
      .ok patched := by decide +kernel
  have hfilled : applyToComposite [key, region, size, kind] composed composite = .ok filled := by
    decide +kernel
  obtain ⟨hcomposed, hcomposite⟩ := applied_in_any_order hperm composite composed environment
  exact ⟨hpatched, (hcomposed hdown patched).mp hpatched, hfilled, (hcomposite hup filled).mp hfilled⟩

end Patch

end ResourceComposition
