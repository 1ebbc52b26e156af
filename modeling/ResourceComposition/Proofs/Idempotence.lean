import ResourceComposition.Proofs.Repatching

/-!
# Rendering again

A template that is rendered onto what it made before makes the same again, and asks the server
nothing (`Template.render_again`). This holds as long as its patches write outside of the header and
none of them steps back to a place above one that was written before.

The base is laid over the result a second time; the type it makes, the kind that is left over, the
metadata and the rest of the body are each shown to come out as before.
-/

namespace ResourceComposition

open Resource

/-! ### What is known of a resource that was read -/

namespace Resource

variable {form : Json} {r : Resource}

theorem field?_ordered_of_ofJson (hform : form.Ordered) (h : ofJson form = .ok r) {name : String}
    (hname : name ≠ "metadata") {v : Json} (hv : r.encode.field? name = some v) : v.Ordered := by
  obtain ⟨-, hproper, hstands⟩ := of_ofJson h hform.sorted
  by_cases ha : name = "apiVersion"
  · subst ha
    rw [hproper.field?_apiVersion] at hv
    obtain ⟨type, -, rfl⟩ := Option.map_eq_some_iff.mp hv
    trivial
  · by_cases hk : name = "kind"
    · subst hk
      rw [hproper.field?_kind, Option.or_eq_some_iff] at hv
      obtain hbody | ⟨-, htype⟩ := hv
      · exact hform.field? (hstands.kind v hbody)
      · obtain ⟨type, -, rfl⟩ := Option.map_eq_some_iff.mp htype
        trivial
    · have hout : name ∉ headerNames := by simp [headerNames, ha, hk, hname]
      rw [hproper.field?_body hout, hstands.body name hout] at hv
      exact hform.field? hv

/-- Annotations and labels that were read from something in order are in order. -/
theorem sorted_texts_of_ofJson (hform : form.Ordered) (h : ofJson form = .ok r) :
    (r.metadata.annotations.getD []).Sorted ∧ (r.metadata.labels.getD []).Sorted := by
  obtain ⟨-, hempty⟩ | ⟨value, hvalue, hread⟩ := metadata_cases_of_ofJson h
  · rw [hempty]
    exact ⟨Dict.sorted_nil, Dict.sorted_nil⟩
  · obtain ⟨entries, rfl, hfields⟩ := Metadata.meaning_eq_some.mp hread
    have hordered (name : String) (v : Json) (hv : Dict.get? entries name = some v) : v.Ordered :=
      (hform.field? hvalue).field? hv
    exact ⟨Metadata.sorted_of_optional_texts (hordered _) hfields.annotations,
      Metadata.sorted_of_optional_texts (hordered _) hfields.labels⟩

end Resource

theorem Typing.typeMeta_eq_some {typing : Typing} {type : TypeMeta} :
    typing.typeMeta = some type ↔ typing = type.typing := by
  obtain ⟨apiVersion, kind⟩ := typing
  obtain ⟨apiVersion', kind'⟩ := type
  cases apiVersion <;> cases kind <;> simp [Typing.typeMeta, TypeMeta.typing]

theorem Typing.typeMeta_eq_none {typing : Typing} :
    typing.typeMeta = none ↔ typing.apiVersion = none ∨ typing.kind = none := by
  obtain ⟨apiVersion, kind⟩ := typing
  cases apiVersion <;> cases kind <;> simp [Typing.typeMeta]

namespace Template

variable {t : Template} {type : TypeMeta} {environment form : Json}
  {composite before merged merged' patched r r' : Resource}

theorem laidOver_eq_ok : t.laidOver before = .ok merged ↔
    t.base.isObject = true ∧ ofJson (before.encode.overlay t.base) = .ok merged := by
  unfold laidOver
  cases h : t.base.isObject with
  | false => simp
  | true => cases hread : ofJson (before.encode.overlay t.base) <;> simp

/-- The annotation that names the template, if it has a name. -/
def marks (t : Template) : List (String × String) :=
  match t.name with
  | some name => [(Resource.templateAnnotation, name)]
  | none => []

/-! ### The base laid over again -/

section

variable {source : Dict Json}

theorem text?_overlay_object (target : Json) (hsource : source.Sorted) (name : String) :
    (target.overlay (.object source)).text? name =
      ((source.get? name).map Json.string?).getD (target.text? name) := by
  rw [Json.text?, Json.field?_overlay_object _ hsource]
  cases hv : source.get? name with
  | none => rfl
  | some v => exact Json.string?_overlay _ v

/-- A text is the same in two overlays if the base gives it, or else both had it before. -/
theorem text?_again {name : String} (hsource : source.Sorted) {target target' : Json}
    (h : source.get? name = none → target'.text? name = (target.overlay (.object source)).text? name) :
    (target'.overlay (.object source)).text? name = (target.overlay (.object source)).text? name := by
  cases hv : source.get? name with
  | none => rw [text?_overlay_object target' hsource, hv]; exact h hv
  | some v => rw [text?_overlay_object target' hsource, text?_overlay_object target hsource, hv]; rfl

/-- Laying the base over what it made leads to the same type. -/
theorem typing_again (hsource : source.Sorted) (hr : r.Proper)
    (hmerged : ofJson (before.encode.overlay (.object source)) = .ok merged)
    (hsorted : (before.encode.overlay (.object source)).fields.Sorted)
    (htype : r.typeMeta = merged.typeMeta)
    (hkind : r.body.get? "kind" = none ∨ r.body.get? "kind" = merged.body.get? "kind") :
    (r.encode.overlay (.object source)).typing.typeMeta = merged.typeMeta := by
  obtain ⟨hfirst, -, hstands⟩ := of_ofJson hmerged hsorted
  cases hmade : merged.typeMeta with
  | some type =>
    have htyping := Typing.typeMeta_eq_some.mp (hfirst.symm.trans hmade)
    obtain ⟨ha, hk⟩ := Typing.mk.inj ((hr.typing_encode (htype.trans hmade)).trans htyping.symm)
    refine Typing.typeMeta_eq_some.mpr (Eq.trans ?_ htyping)
    rw [Json.typing, text?_again hsource fun _ => ha, text?_again hsource fun _ => hk]
    rfl
  | none =>
    refine Typing.typeMeta_eq_none.mpr ?_
    obtain ha | hk := Typing.typeMeta_eq_none.mp (hfirst.symm.trans hmade)
    · refine .inl ((text?_again hsource fun _ => ?_).trans ha)
      rw [show (before.encode.overlay (.object source)).text? "apiVersion" = none from ha,
        Json.text?, hr.field?_apiVersion, htype, hmade]
      rfl
    · refine .inr ((text?_again hsource fun _ => ?_).trans hk)
      rw [show (before.encode.overlay (.object source)).text? "kind" = none from hk,
        Json.text?, hr.field?_kind, htype, hmade, Option.map_none, Option.or_none]
      obtain hgone | hleft := hkind
      · rw [hgone]
        rfl
      · -- A kind that was left over was no text.
        rw [hleft]
        cases hv : merged.body.get? "kind" with
        | none => rfl
        | some v =>
          rw [Json.typing, Json.text?, Json.text?, hstands.kind v hv] at hk
          exact hk

/-- Whether the kind is left over hangs on the base alone. -/
theorem wrong_apiVersion (hsource : source.Sorted) (hr : r.Proper) :
    ((r.encode.overlay (.object source)).field? "apiVersion").any (·.string?.isNone) =
      (source.get? "apiVersion").any (·.string?.isNone) := by
  rw [Json.field?_overlay_object _ hsource, hr.field?_apiVersion]
  cases source.get? "apiVersion" with
  | some v => simp [Json.laid, Json.string?_overlay]
  | none => cases r.typeMeta <;> simp [Json.laid, Json.string?]

/-- A kind that was left over is left over again, with the same laid over it. -/
theorem kind_again (hsource : (Json.object source).Ordered) (hbefore : before.Proper) (hr : r.Proper)
    (hmerged : ofJson (before.encode.overlay (.object source)) = .ok merged)
    (hsorted : (before.encode.overlay (.object source)).fields.Sorted)
    (hagain : ofJson (r.encode.overlay (.object source)) = .ok merged')
    (hsorted' : (r.encode.overlay (.object source)).fields.Sorted)
    (htype : r.typeMeta = merged.typeMeta)
    (hordered : ((before.encode.field? "kind").getD .null).Ordered)
    (hkind : r.body.get? "kind" = merged.body.get? "kind") :
    merged'.body.get? "kind" = merged.body.get? "kind" := by
  have hleft := kind_of_ofJson hmerged hsorted
  rw [wrong_apiVersion hsource.1 hbefore] at hleft
  rw [kind_of_ofJson hagain hsorted', wrong_apiVersion hsource.1 hr]
  split at hleft
  · next hwrong =>
    have hnone : r.typeMeta = none := by
      rw [htype, (of_ofJson hmerged hsorted).1]
      refine Typing.typeMeta_eq_none.mpr (.inl ?_)
      rw [Json.typing, text?_overlay_object _ hsource.1]
      cases ha : source.get? "apiVersion" <;> simp_all
    have hsame : r.encode.field? "kind" =
        Json.laid (source.get? "kind") (before.encode.field? "kind") := by
      rw [hr.field?_kind, hnone, Option.map_none, Option.or_none, hkind, hleft,
        Json.field?_overlay_object _ hsource.1]
    rw [if_pos hwrong, Json.field?_overlay_object _ hsource.1, hsame,
      Json.laid_laid (fun top htop => hsource.2.get? htop) hordered, hleft,
      Json.field?_overlay_object _ hsource.1]
  · next hfine => rw [if_neg hfine, hleft]

theorem field?_metadata_overlay (hsource : source.Sorted) (hr : r.Proper) :
    (r.encode.overlay (.object source)).field? "metadata" =
      some ((Json.laid (source.get? "metadata") (some r.metadata.encode)).getD .null) := by
  rw [Json.field?_overlay_object _ hsource, hr.field?_metadata]
  cases source.get? "metadata" <;> rfl

/-- The body that the base makes is the base laid over the body, field by field. -/
theorem body_laid (hsource : source.Sorted)
    (hmerged : ofJson (r.encode.overlay (.object source)) = .ok merged)
    (hsorted : (r.encode.overlay (.object source)).fields.Sorted) {name : String}
    (hname : name ∉ headerNames) :
    merged.body.get? name = Json.laid (source.get? name) (r.encode.field? name) := by
  rw [(of_ofJson hmerged hsorted).2.2.body name hname, Json.field?_overlay_object _ hsource]

/-- What the base makes of a resource that was made with it before. -/
structure LaidAgain (t : Template) (labels : List (String × String)) (generateName : Option String)
    (source : Dict Json) (merged r merged' : Resource) : Prop where
  /-- The base can be laid over it. -/
  read : ofJson (r.encode.overlay (.object source)) = .ok merged'
  /-- The body leaves the header to its place. -/
  proper : merged'.Proper
  /-- The type is the same. -/
  type : merged'.typeMeta = merged.typeMeta
  /-- A kind that was left over is left over again. -/
  kind : r.body.get? "kind" = merged.body.get? "kind" →
    merged'.body.get? "kind" = merged.body.get? "kind"
  /-- The rest of the body is what the base makes of it. -/
  body : ∀ name ∉ headerNames,
    merged'.body.get? name = Json.laid (source.get? name) (r.body.get? name)
  /-- The metadata can be read as they are written. -/
  legible : merged'.metadata.Legible
  /-- The metadata are the same once they are marked, up to the owners. -/
  metadata : ∃ owners, merged'.metadata.identified t.marks labels generateName r.metadata.name
      r.metadata.ns = { r.metadata with ownerReferences := owners } ∧
    (owners = merged.metadata.ownerReferences ∨ owners = r.metadata.ownerReferences)

/-- The base is laid over a resource that was read, then over what was made of the result. -/
theorem laidAgain (t : Template) (labels : List (String × String)) (generateName : Option String)
    (hform : form.Ordered) (hbefore : ofJson form = .ok before)
    (hsource : (Json.object source).Ordered)
    (hmerged : ofJson (before.encode.overlay (.object source)) = .ok merged) (hr : r.Proper)
    (htype : r.typeMeta = merged.typeMeta)
    (hkind : r.body.get? "kind" = none ∨ r.body.get? "kind" = merged.body.get? "kind")
    (hmetadata : r.metadata = { merged.metadata.identified t.marks labels generateName r.metadata.name
      r.metadata.ns with ownerReferences := r.metadata.ownerReferences }) :
    ∃ merged', LaidAgain t labels generateName source merged r merged' := by
  obtain ⟨-, hproper, -⟩ := of_ofJson hbefore hform.sorted
  obtain ⟨hnotes, hlabels⟩ := sorted_texts_of_ofJson hform hbefore
  have hsorted := Json.sorted_overlay before.encode_sorted hsource
  have hsorted' := Json.sorted_overlay r.encode_sorted hsource
  have hread := meaning_of_ofJson hmerged (field?_metadata_overlay hsource.1 hproper)
  obtain ⟨again, owners, hagain, hidentified, howners⟩ := Metadata.again
    (fun top htop => hsource.2.get? htop) hnotes hlabels hread hmetadata
  obtain ⟨merged', hmerged', rfl⟩ := exists_ofJson (Json.isObject_overlay_object r.encode source)
    (field?_metadata_overlay hsource.1 hr) hagain
  have htyping := typing_again hsource.1 hr hmerged hsorted htype hkind
  obtain ⟨htype', hproper', -⟩ := of_ofJson hmerged' hsorted'
  refine ⟨merged', {
    read := hmerged'
    proper := hproper'
    type := htype'.trans htyping
    kind := kind_again hsource hproper hr hmerged hsorted hmerged' hsorted' htype ?_
    body := fun name hname => by
      rw [body_laid hsource.1 hmerged' hsorted' hname, hr.field?_body hname]
    legible := Metadata.legible_of_meaning hagain
    metadata := ⟨owners, hidentified, howners⟩ }⟩
  cases hv : before.encode.field? "kind" with
  | none => trivial
  | some v => exact field?_ordered_of_ofJson hform hbefore (by decide) hv

end

/-! ### Marks and owners set again -/

theorem identify_metadata (t : Template) (labels : List (String × String)) (namePrefix : String)
    (before r : Resource) : (t.identify labels namePrefix before r).metadata =
      r.metadata.identified t.marks labels (some (namePrefix ++ "-")) before.metadata.name
        before.metadata.ns := by
  simp only [identify, Metadata.foldl_setLabel, marks]
  cases t.name <;> rfl

theorem upsertIn_upsertIn (owner : OwnerReference) (owners : List OwnerReference) :
    Metadata.upsertIn owner (Metadata.upsertIn owner owners) = Metadata.upsertIn owner owners := by
  induction owners with
  | nil => simp [Metadata.upsertIn]
  | cons other rest ih =>
    rw [Metadata.upsertIn]
    split
    · simp [Metadata.upsertIn]
    · next hne => rw [Metadata.upsertIn, if_neg hne, ih]

theorem adopt_of_free (h : ∀ other, r.metadata.controller? = some other → other.uid = composite.uid) :
    adopt composite r =
      .ok { r with metadata := r.metadata.upsertOwner composite.asController } := by
  simp only [adopt]
  cases hother : r.metadata.controller? with
  | none => rfl
  | some other => exact if_pos (h other hother)

/-- A resource is adopted again under whatever name, with the owners from before or with those that
adoption left. -/
theorem adopt_again {owners : Option (List OwnerReference)} (name : Option String)
    (h : adopt composite patched = .ok r)
    (howners : owners = patched.metadata.ownerReferences ∨ owners = r.metadata.ownerReferences) :
    adopt composite { r with metadata := { r.metadata with name, ownerReferences := owners } } =
      .ok { r with metadata := { r.metadata with name } } := by
  obtain ⟨rfl, ⟨owner, howner, huid⟩, hfree⟩ := adopt_spec h
  obtain rfl | rfl := howners
  · exact adopt_of_free hfree
  · refine (adopt_of_free fun other hother => ?_).trans ?_
    · obtain rfl := Option.some.inj (howner.symm.trans hother)
      exact huid
    · simp only [Metadata.upsertOwner, Option.getD_some, upsertIn_upsertIn]

/-! ### Prepared again -/

/-- What the patches of a template write to the resource that is composed. -/
def writings (t : Template) (environment : Json) (composite : Resource) : List Writing :=
  Patch.writings (Patch.composedSource composite environment) t.patches

theorem identify_proper {labels : List (String × String)} {namePrefix : String} (h : merged.Proper) :
    (t.identify labels namePrefix before merged).Proper :=
  have hid := t.identify_spec labels namePrefix before merged
  h.congr hid.type hid.body

theorem identify_legible {labels : List (String × String)} {namePrefix : String}
    (h : merged.metadata.Legible) : (t.identify labels namePrefix before merged).metadata.Legible :=
  t.identify_metadata labels namePrefix before merged ▸ h.identified ..

/-- The patches make the same again of what the base makes again. -/
theorem applyToComposed_again {labels : List (String × String)} {generateName : Option String}
    {namePrefix : String} {source : Dict Json} (hform : form.Ordered)
    (hbefore : ofJson form = .ok before) (hsource : (Json.object source).Ordered)
    (hmerged : ofJson (before.encode.overlay (.object source)) = .ok merged)
    (hproper : merged.Proper) (hlegible : merged.metadata.Legible)
    (havoid : Writing.Avoid headerNames (t.writings environment composite))
    (honward : Writing.Onward (t.writings environment composite))
    (hpatched : Patch.applyToComposed t.patches composite environment
      (t.identify labels namePrefix before merged) = .ok patched)
    (hbody : r.body = patched.body) (hagain : LaidAgain t labels generateName source merged r merged') :
    Patch.applyToComposed t.patches composite environment
      (t.identify labels namePrefix r merged') =
        .ok { patched with metadata := (t.identify labels namePrefix r merged').metadata } := by
  have hid := t.identify_spec labels namePrefix before merged
  have hid' := t.identify_spec labels namePrefix r merged'
  refine Patch.applyTo_again (Dict.get? source) before.encode.field? (identify_proper hproper)
    (identify_proper hagain.proper) (identify_legible hlegible) (identify_legible hagain.legible)
    havoid honward (fun _ _ top htop => hsource.2.get? htop) (fun name hname => ?_) hpatched
    (by rw [hid'.type, hid.type, hagain.type]) (fun hkind => ?_) (fun name hname => ?_)
    fun name hname => ?_
  · have hne : name ≠ "metadata" := by
      rintro rfl
      simp [headerNames] at hname
    cases hv : before.encode.field? name with
    | none => trivial
    | some v => exact field?_ordered_of_ofJson hform hbefore hne hv
  · rw [hid.body] at hkind ⊢
    rw [hid'.body]
    exact hagain.kind (hbody ▸ hkind)
  · rw [hid.body]
    exact body_laid hsource.1 hmerged (Json.sorted_overlay before.encode_sorted hsource) hname
  · rw [hid'.body, hagain.body name hname, hbody]

/-- A template makes of what it prepared, under whatever name, the same again. -/
theorem prepare_again (hform : form.Ordered) (hbefore : ofJson form = .ok before)
    (hbase : t.base.Ordered) (havoid : Writing.Avoid headerNames (t.writings environment composite))
    (honward : Writing.Onward (t.writings environment composite))
    (h : t.prepare environment composite before = .ok r) (name : Option String)
    (hr' : r' = { r with metadata := { r.metadata with name } }) :
    t.prepare environment composite r' = .ok r' := by
  obtain ⟨merged, namePrefix, patched, hlaid, -, hprefix, hpatched, hadopt⟩ := prepare_eq_ok_iff.mp h
  obtain ⟨hobject, hmerged⟩ := laidOver_eq_ok.mp hlaid
  obtain ⟨source, hsource⟩ := Json.exists_fields hobject
  rw [hsource] at hmerged hbase
  -- What the first pass made.
  obtain ⟨-, hbeforeProper, -⟩ := of_ofJson hbefore hform.sorted
  obtain ⟨-, hproper, -⟩ := of_ofJson hmerged (Json.sorted_overlay before.encode_sorted hbase)
  have hlegible := Metadata.legible_of_meaning
    (meaning_of_ofJson hmerged (field?_metadata_overlay hbase.1 hbeforeProper))
  have hid := t.identify_spec composite.identifyingLabels namePrefix before merged
  obtain ⟨hpatchedProper, htype, hmetadata, hkind⟩ :=
    Patch.of_applyTo (identify_proper hproper) (identify_legible hlegible) havoid hpatched
  rw [identify_metadata] at hmetadata
  obtain ⟨rfl, -, -⟩ := adopt_spec hadopt
  have hbody' : r'.body = patched.body := by rw [hr']
  have htype' : r'.typeMeta = merged.typeMeta := by
    rw [hr']
    exact htype.trans hid.type
  -- What the second pass makes of it.
  obtain ⟨merged', hagain⟩ := laidAgain t composite.identifyingLabels (some (namePrefix ++ "-")) hform
    hbefore hbase hmerged (hpatchedProper.congr (by rw [hr']) hbody') htype'
    (by rwa [hbody', ← hid.body]) (by simp only [hr', Metadata.upsertOwner, hmetadata]; rfl)
  have hpatched' := applyToComposed_again hform hbefore hbase hmerged hproper hlegible havoid honward
    hpatched hbody' hagain
  obtain ⟨owners, hidentified, howners⟩ := hagain.metadata
  rw [identify_metadata, hidentified] at hpatched'
  have hadopt' : adopt composite { patched with metadata := { r'.metadata with
      ownerReferences := owners } } = .ok r' := by
    have hkept : patched.metadata.ownerReferences = merged.metadata.ownerReferences := by
      rw [hmetadata]
      rfl
    rw [← hkept] at howners
    rw [hr'] at howners ⊢
    exact adopt_again name hadopt howners
  refine prepare_eq_ok_iff.mpr ⟨merged', namePrefix, _, laidOver_eq_ok.mpr ⟨hobject, ?_⟩, .inr ?_,
    hprefix, hpatched', hadopt'⟩
  · rw [hsource]
    exact hagain.read
  · rw [Resource.kind, Resource.kind, hagain.type, htype']

/-- A template that is rendered onto what it made, with the same composite and environment, makes
exactly the same again, and no call is made. Its patches must write outside of the header, and none may
write to a place above one that was written before. -/
theorem render_again {σ : Type} {world : World σ} {s last : σ} {log : List Exchange}
    (hform : form.Ordered) (hbefore : ofJson form = .ok before) (hbase : t.base.Ordered)
    (havoid : Writing.Avoid headerNames (t.writings environment composite))
    (honward : Writing.Onward (t.writings environment composite))
    (h : (t.render environment composite before).Succeeds world s log r last) :
    (t.render environment composite r).run = .done (.ok r) := by
  obtain ⟨prepared, middle, early, late, rfl, hprepared, hallocated⟩ := Attempt.succeeds_bind.mp h
  obtain ⟨hprepare, -⟩ := Attempt.succeeds_ofExcept.mp hprepared
  obtain ⟨hr, hnamed⟩ := Composition.allocateName_named hallocated
  have hagain := prepare_again hform hbefore hbase havoid honward hprepare r.metadata.name hr
  have hallocate : allocateName r = pure r := by
    unfold allocateName
    rw [hnamed]
    rfl
  unfold render
  rw [hagain]
  change (allocateName r).run = _
  rw [hallocate]
  rfl

end Template

/-! ### A saddle, made twice -/

namespace Composition

/-- A composite of saddles. -/
def saddler : Resource where
  typeMeta := some ⟨"v1", "Saddler"⟩
  metadata := {
    name := some "saddler", uid := some "u", labels := some [(prefixLabel, "saddler")] }
  body := [("spec", .object [("buckle", .string "brass"),
    ("straps", .array [.string "neck", .string "girth"])])]

/-- What the saddler works with. -/
def workshop : Json := .object [("dye", .string "oak")]

/-- A template of a saddle. The straps come from the saddler; one more is put in, further down. -/
def saddle : Template where
  name := some "saddle"
  base := .object [("apiVersion", .string "v1"), ("kind", .string "Saddle"),
    ("metadata", .object [("annotations", .object [("maker", .string "unknown")])]),
    ("spec", .object [("stitch", .object [("thread", .string "linen")]),
      ("straps", .array [.null, .null, .null])])]
  patches := [
    { fromFieldPath := some "spec.straps" },
    { type := .fromEnvironment, fromFieldPath := some "dye", toFieldPath := some "spec.straps[3].dye" },
    { fromFieldPath := some "spec.buckle", toFieldPath := some "spec.stitch.buckle" },
    { fromFieldPath := some "spec.saddlecloth" }]

/-- The form of an old saddle, with a time that is not written as usual. -/
def oldForm : Json := .object [("apiVersion", .string "v1"), ("kind", .string "Saddle"),
  ("metadata", .object [("annotations", .object [("owner", .string "none")]),
    ("creationTimestamp", .string "2024-1-2 03:04:05.6+01:00")]),
  ("spec", .object [("stitch", .string "torn")])]

/-- The old saddle. -/
def oldSaddle : Resource where
  typeMeta := some ⟨"v1", "Saddle"⟩
  metadata := {
    annotations := some [("owner", "none")], creationTimestamp := some ⟨2024, 1, 2, 2, 4, 5, 0⟩ }
  body := [("spec", .object [("stitch", .string "torn")])]

/-- An end is the new saddle, to which the server gave a name. -/
def renewed (log : List Exchange) : Except CompositionError Resource → Bool
  | .ok r => decide (log.length = 1 ∧ r.metadata.name = some "saddler-00001" ∧
      r.body = [("spec", .object [
        ("stitch", .object [("buckle", .string "brass"), ("thread", .string "linen")]),
        ("straps", .array [.string "neck", .string "girth", .null,
          .object [("dye", .string "oak")]])])])
  | .error _ => false

/-- The old saddle is renewed with one call, and once more with none. -/
theorem saddle_renewed : ∃ log r last,
    oldForm.Ordered ∧ ofJson oldForm = .ok oldSaddle ∧ saddle.base.Ordered ∧
    Writing.Avoid headerNames (saddle.writings workshop saddler) ∧
    Writing.Onward (saddle.writings workshop saddler) ∧
    (saddle.render workshop saddler oldSaddle).Succeeds Memory.handler.world {} log r last ∧
    renewed log (.ok r) = true ∧ (saddle.render workshop saddler r).run = .done (.ok r) := by
  have hform : oldForm.Ordered := by decide +kernel
  have hread : ofJson oldForm = .ok oldSaddle := by decide +kernel
  have hbase : saddle.base.Ordered := by decide +kernel
  have havoid : Writing.Avoid headerNames (saddle.writings workshop saddler) := by decide +kernel
  have honward : Writing.Onward (saddle.writings workshop saddler) := by decide +kernel
  obtain ⟨log, _ | r, last, hreaches, hcheck⟩ := Program.reaches_of_run Memory.handler
    (saddle.render workshop saddler oldSaddle).run {} (fun ending _ log => renewed log ending)
    (by decide +kernel)
  · cases hcheck
  · exact ⟨log, r, last, hform, hread, hbase, havoid, honward, hreaches, hcheck,
      Template.render_again hform hread hbase havoid honward hreaches⟩

end Composition

end ResourceComposition
