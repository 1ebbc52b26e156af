import ResourceComposition.Proofs.Establishment

/-!
# Whether rendering keeps the kind

The kind of a composed resource is meant to be immutable, and rendering fails if the base gives the
resource another kind than it had. But the test comes before the patches, and they may write to the
type as well as to anything else. So the kind is kept exactly if the patches keep it
(`Renderer.composed_keeps_kind_iff`): the last that is written at or below the kind is the kind
itself, and the last that is written at or below the group and version is a text, since a resource
with half a type has none.

Of several writings to one place only the last decides whether there is a text, and which
(`Json.string?_writeAll`).
-/

namespace ResourceComposition

open Resource

namespace Writing

/-- The text of a place after writings at or below it, which had some text before. -/
def textAfter (ws : List Writing) (text? : Option String) : Option String :=
  match ws.getLast? with
  | none => text?
  | some w => if w.path = [] then w.value.string? else none

variable {w : Writing} {ws : List Writing} {text : String} {text? : Option String}

theorem textAfter_cons : textAfter (w :: ws) text? =
    textAfter ws (if w.path = [] then w.value.string? else none) := by
  rw [textAfter, textAfter, List.getLast?_cons]
  cases ws.getLast? <;> rfl

theorem textAfter_eq_self : textAfter ws (some text) = some text ↔
    ∀ w ∈ ws.getLast?, w = ⟨[], .string text⟩ := by
  rw [textAfter]
  cases ws.getLast? with
  | none => simp
  | some w =>
    obtain ⟨path, value⟩ := w
    by_cases hpath : path = []
    · cases value <;> simp [hpath, Json.string?]
    · simp [hpath]

theorem textAfter_isSome : (textAfter ws (some text)).isSome = true ↔
    ∀ w ∈ ws.getLast?, w.path = [] ∧ w.value.string?.isSome = true := by
  rw [textAfter]
  cases ws.getLast? with
  | none => simp
  | some w => by_cases hpath : w.path = [] <;> simp [hpath]

/-- Writings into a form keep its kind: the last one at or below the kind writes the kind itself,
and the last one at or below the group and version writes a text. -/
def KeepKind (kind : String) (ws : List Writing) : Prop :=
  (∀ w ∈ (below (.field "kind") ws).getLast?, w = ⟨[], .string kind⟩) ∧
    ∀ w ∈ (below (.field "apiVersion") ws).getLast?, w.path = [] ∧ w.value.string?.isSome = true

instance (kind : String) (ws : List Writing) : Decidable (KeepKind kind ws) :=
  inferInstanceAs (Decidable (_ ∧ _))

end Writing

/-! ### Texts that are written -/

namespace Json

open Writing

variable {new target after form : Json} {path : FieldPath} {ws : List Writing} {o z : Option Json}
  {name : String}

/-- A writing further down leaves an object or a list. -/
theorem string?_write (h : write new path target = .ok after) :
    after.string? = if path = [] then new.string? else none := by
  cases path with
  | nil =>
    obtain rfl := Except.ok.inj h
    rfl
  | cons segment rest =>
    cases segment with
    | field name =>
      obtain ⟨fields, child, -, -, rfl⟩ := write_field_eq_ok.mp h
      rfl
    | index position =>
      obtain ⟨items, child, -, -, rfl⟩ := write_index_eq_ok.mp h
      rfl

/-- The last of several writings decides on the text. -/
theorem string?_writeAll (h : writeAll ws o = .ok z) :
    z.bind string? = textAfter ws (o.bind string?) := by
  induction ws generalizing o with
  | nil =>
    obtain rfl := Except.ok.inj h
    rfl
  | cons w rest ih =>
    obtain ⟨after, hafter, hrest⟩ := writeAll_cons.mp h
    rw [textAfter_cons, ← string?_write hafter]
    exact ih hrest

/-- The texts of an object after writings into it. -/
theorem text?_writeAll (hpaths : ∀ w ∈ ws, w.path ≠ []) (hform : form.isObject = true)
    (h : writeAll ws (some form) = .ok (some after)) : (form.fields.Sorted → after.fields.Sorted) ∧
      ∀ name, after.text? name = textAfter (below (.field name) ws) (form.text? name) := by
  obtain ⟨fields, rfl⟩ := exists_fields hform
  obtain ⟨-, written, hwritten, hsorted, hfield⟩ := writeAll_object hpaths h
  obtain rfl := Option.some.inj hwritten
  exact ⟨hsorted, fun name => string?_writeAll (hfield name)⟩

end Json

/-- A type has a kind if both parts of it are there. -/
theorem Typing.kind_eq_iff {typing : Typing} {kind : String} (hkind : kind ≠ "") :
    (typing.typeMeta.map (·.kind)).getD "" = kind ↔
      typing.kind = some kind ∧ typing.apiVersion.isSome = true := by
  obtain ⟨apiVersion, kind?⟩ := typing
  cases apiVersion <;> cases kind? <;> simp [Typing.typeMeta, hkind.symm]

/-! ### Patches and the kind -/

namespace Patch

variable {source? : PatchType → Option Json} {patches : List Patch} {r patched : Resource}

/-- Patches keep the kind of a resource exactly if their writings do. -/
theorem applyTo_keeps_kind_iff (hr : r.Proper) (hkind : r.kind ≠ "")
    (h : applyTo source? patches r = .ok patched) :
    patched.kind = r.kind ↔ Writing.KeepKind r.kind (writings source? patches) := by
  obtain ⟨form, hcopied, hread⟩ | ⟨hnone, rfl⟩ := applyTo_eq_ok h
  · obtain ⟨type, htype⟩ : ∃ type, r.typeMeta = some type := by
      cases hsome : r.typeMeta with
      | none => exact absurd (by rw [Resource.kind, hsome]; rfl) hkind
      | some type => exact ⟨type, rfl⟩
    have hsame : r.kind = type.kind := by rw [Resource.kind, htype]; rfl
    have hobject : r.encode.isObject = true := rfl
    obtain ⟨hsorted, htext⟩ :=
      Json.text?_writeAll writings_ne_nil hobject (copyFields_iff.mp hcopied).2
    obtain ⟨hmade, -, -⟩ := of_ofJson hread (hsorted r.encode_sorted)
    obtain ⟨hapiVersion, hkindText⟩ := Typing.mk.inj (hr.typing_encode htype)
    rw [hsame] at hkind ⊢
    rw [Resource.kind, hmade, Typing.kind_eq_iff hkind, Json.typing, htext, htext, hapiVersion,
      hkindText, Writing.textAfter_eq_self, Writing.textAfter_isSome]
    rfl
  · have hnil : writings source? patches = [] :=
      List.filterMap_eq_nil_iff.mpr fun p hp => writing?_of_none (hnone p hp)
    rw [hnil]
    exact iff_of_true rfl (by simp [Writing.KeepKind, Writing.below])

end Patch

namespace Template

variable {t : Template} {environment : Json} {composite before prepared : Resource}

/-- A resource that could be prepared has the kind from before exactly if the patches keep it. -/
theorem prepare_keeps_kind_iff (hkind : before.kind ≠ "")
    (h : t.prepare environment composite before = .ok prepared) :
    prepared.kind = before.kind ↔
      Writing.KeepKind before.kind (t.writings environment composite) := by
  obtain ⟨merged, namePrefix, patched, hlaid, hkept, -, hpatched, hadopt⟩ := prepare_eq_ok_iff.mp h
  have hid := t.identify_spec composite.identifyingLabels namePrefix before merged
  have hsame : (t.identify composite.identifyingLabels namePrefix before merged).kind =
      before.kind := by
    rw [hkept.resolve_left hkind, Resource.kind, hid.type, Resource.kind]
  have hpatches := Patch.applyTo_keeps_kind_iff (identify_proper (laidOver_wellFormed hlaid).1)
    (hsame ▸ hkind) hpatched
  rw [hsame] at hpatches
  obtain ⟨rfl, -, -⟩ := adopt_spec hadopt
  exact hpatches

/-- The name that is given to a resource changes nothing about its kind. -/
theorem Allocates.kind {r : Resource} {log : List Exchange} (h : Allocates prepared (.ok r) log) :
    r.kind = prepared.kind := by
  cases h with
  | named => rfl
  | allocated => rfl

end Template

namespace Renderer

/-- Whether rendering keeps the kind of a composed resource that had one, whatever the store
replies. If it succeeds, the kind is the same exactly if the patches keep it. With a base that gives
another kind it does not succeed. -/
theorem composed_keeps_kind_iff {σ : Type} (store : Handler σ) (s : σ) (t : Template)
    (environment : Json) (composite before : Resource) (hkind : before.kind ≠ "") :
    let ((result, sides), _) := record store s t environment ⟨composite, before⟩
    (result = .ok () → (sides.composed.kind = before.kind ↔
      Writing.KeepKind before.kind (t.writings environment composite))) ∧
    ∀ merged, t.laidOver before = .ok merged → merged.kind ≠ before.kind →
      ∃ e, result = .error e := by
  obtain ⟨e, log, -, hrecord⟩ | ⟨prepared, r, log, hprepare, hallocates, hrecord⟩ :=
    record_cases store s t environment ⟨composite, before⟩
  · rw [hrecord]
    exact ⟨nofun, fun _ _ _ => ⟨e, rfl⟩⟩
  · rw [hrecord]
    refine ⟨fun _ => ?_, fun merged hlaid hne => ?_⟩
    · show r.kind = before.kind ↔ _
      rw [hallocates.kind]
      exact Template.prepare_keeps_kind_iff hkind hprepare
    · obtain ⟨merged', -, -, hlaid', hkept, -⟩ := Template.prepare_eq_ok_iff.mp hprepare
      obtain rfl : merged = merged' := Except.ok.inj (hlaid.symm.trans hlaid')
      exact absurd (hkept.resolve_left hkind).symm hne

/-! ### A box that becomes a crate -/

/-- A composite that says what its box is to be. -/
def packer : Resource where
  typeMeta := some ⟨"v1", "Packer"⟩
  metadata := { name := some "packer", uid := some "u", labels := some [(prefixLabel, "packer")] }
  body := [("spec", .object [("kind", .string "Crate"), ("lid", .string "Box")])]

/-- A box that was composed before. -/
def oldBox : Resource where
  typeMeta := some ⟨"v1", "Box"⟩
  metadata := { name := some "box" }

/-- A template of a box that takes its kind from the composite. -/
def recast : Template where
  name := some "box"
  base := .object [("apiVersion", .string "v1"), ("kind", .string "Box")]
  patches := [{ fromFieldPath := some "spec.kind", toFieldPath := some "kind" }]

/-- A template that writes another kind as well, but first. -/
def recastTwice : Template where
  name := some "box"
  base := .object [("apiVersion", .string "v1"), ("kind", .string "Box")]
  patches := [{ fromFieldPath := some "spec.kind", toFieldPath := some "kind" },
    { fromFieldPath := some "spec.lid", toFieldPath := some "kind" }]

/-- Rendering has succeeded, and the composed resource has a kind. -/
def hasKind (kind : String) : (Except CompositionError Unit × Sides) × List Exchange → Bool
  | ((.ok (), sides), _) => decide (sides.composed.kind = kind)
  | ((.error _, _), _) => false

/-- What is written last is the kind from before, so it is kept. -/
theorem recast_box_kept : oldBox.kind ≠ "" ∧
    Writing.KeepKind oldBox.kind (recastTwice.writings .null packer) ∧
    ∃ sides log,
      record Memory.handler {} recastTwice .null ⟨packer, oldBox⟩ = ((.ok (), sides), log) ∧
      sides.composed.kind = oldBox.kind := by
  have hkind : oldBox.kind ≠ "" := by decide
  have hkeeps : Writing.KeepKind oldBox.kind (recastTwice.writings .null packer) := by
    decide +kernel
  have hcheck :
      hasKind "Box" (record Memory.handler {} recastTwice .null ⟨packer, oldBox⟩) = true := by
    decide +kernel
  have hiff := composed_keeps_kind_iff Memory.handler {} recastTwice .null packer oldBox hkind
  generalize record Memory.handler {} recastTwice .null ⟨packer, oldBox⟩ = ending at hcheck hiff
  obtain ⟨⟨e | _, sides⟩, log⟩ := ending
  · cases hcheck
  · exact ⟨hkind, hkeeps, sides, log, rfl, (hiff.1 rfl).mpr hkeeps⟩

/-- The kind of the box is changed by a patch: rendering succeeds, and the box is a crate. -/
theorem box_becomes_crate : oldBox.kind = "Box" ∧
    ∃ sides log, record Memory.handler {} recast .null ⟨packer, oldBox⟩ = ((.ok (), sides), log) ∧
      sides.composed.kind = "Crate" := by
  have hcheck :
      hasKind "Crate" (record Memory.handler {} recast .null ⟨packer, oldBox⟩) = true := by
    decide +kernel
  generalize record Memory.handler {} recast .null ⟨packer, oldBox⟩ = ending at hcheck
  obtain ⟨⟨e | _, sides⟩, log⟩ := ending
  · cases hcheck
  · exact ⟨by decide, sides, log, rfl, of_decide_eq_true hcheck⟩

end Renderer

end ResourceComposition
