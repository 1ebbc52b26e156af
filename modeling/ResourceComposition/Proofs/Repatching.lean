import ResourceComposition.Proofs.Grammar
import ResourceComposition.Proofs.Marks

/-!
# Patches applied again

Whether and what patches write hangs on where they copy from alone, so that on two resources the same
writings are made (`Patch.copyFields_iff`). If they stay out of the header and never step back, and if
the same was laid over both resources, then they make of what they made the same again
(`Patch.applyTo_again`).
-/

namespace ResourceComposition

/-! ### The writings of patches -/

namespace Patch

variable {source? : PatchType → Option Json} {patches : List Patch}

/-- Nothing is written at the root. -/
theorem writings_ne_nil : ∀ w ∈ writings source? patches, w.path ≠ [] := by
  intro w hw hnil
  obtain ⟨p, -, source, -, origin, -, -, hparse⟩ := mem_writings.mp hw
  exact FieldPath.parse_ne_nil _ (hnil ▸ hparse)

end Patch

/-! ### A kind that is left over -/

namespace Resource

section

variable (apiVersion kind : Option String) {entries : List (String × Json)}

/-- No kind is left if nothing was wrong with the group and version before it. -/
theorem takeType_kind_gone (h : Dict.Sorted entries)
    (ha : ∀ v, Dict.get? entries "apiVersion" = some v → apiVersion = none ∧ v.string? ≠ none) :
    Dict.get? (takeType apiVersion kind entries).2 "kind" = none := by
  fun_induction takeType apiVersion kind entries with
  | case1 | case2 => rfl
  | case3 _ _ _ ih =>
    refine ih (Dict.sorted_cons.mp h).2 fun v hv => ?_
    rw [h.get?_rest] at hv
    cases hv
  | case4 apiVersion kind value rest hnot =>
    obtain ⟨rfl, hv⟩ := ha value (by simp [Dict.get?_cons])
    cases value with
    | string s => exact absurd rfl (hnot s rfl)
    | _ => exact absurd rfl hv
  | case5 => exact takeType_none _ _ h.get?_rest
  | case6 => exact h.get?_rest
  | case7 _ _ _ _ _ hna hnk _ _ heq ih =>
    have hrest := ih (Dict.sorted_cons.mp h).2 fun v hv => ha v (by rwa [Dict.get?_cons, if_neg hna])
    rw [heq] at hrest
    rwa [Dict.get?_cons, if_neg hnk]

/-- The kind is left if something was wrong with the group and version before it. -/
theorem takeType_kind_left (h : Dict.Sorted entries) {v : Json}
    (hget : Dict.get? entries "apiVersion" = some v) (hv : v.string? = none) :
    Dict.get? (takeType apiVersion kind entries).2 "kind" = Dict.get? entries "kind" := by
  fun_induction takeType apiVersion kind entries with
  | case1 | case2 => cases hget
  | case3 =>
    obtain rfl := Option.some.inj hget
    cases hv
  | case4 => rw [Dict.get?_cons, if_neg (by decide)]
  | case5 | case6 =>
    -- In order, the group and version cannot come after the kind.
    rw [Dict.get?_cons, if_neg (by decide)] at hget
    exact absurd ((Dict.sorted_cons.mp h).1 _ (Dict.mem_of_get? hget))
      (by decide : ¬ "kind" < "apiVersion")
  | case7 _ _ _ _ _ hna hnk _ _ heq ih =>
    rw [Dict.get?_cons, if_neg hna] at hget
    have hrest := ih (Dict.sorted_cons.mp h).2 hget
    rw [heq] at hrest
    rw [Dict.get?_cons, Dict.get?_cons, if_neg hnk, if_neg hnk, hrest]

end

variable {form form' : Json} {r r' : Resource} {m : Metadata}

/-- A kind is left over if the group and version is there and no text. -/
theorem kind_of_ofJson (h : ofJson form = .ok r) (hsorted : form.fields.Sorted) :
    r.body.get? "kind" = if (form.field? "apiVersion").any (·.string?.isNone) then form.field? "kind"
      else none := by
  obtain ⟨metadata, -, h⟩ := Option.bind_eq_some_iff.mp (ofJson_eq_ok.mp h)
  obtain rfl := Option.some.inj h
  have hrest := hsorted.erase (k := "metadata")
  have hfind (name : String) (hne : "metadata" ≠ name) :
      Dict.get? (form.fields.erase "metadata") name = form.field? name := by
    rw [Dict.get?_erase, if_neg hne]
    rfl
  have hbody : (Dict.ofList (takeType none none (form.fields.erase "metadata")).2).get? "kind" =
      Dict.get? (takeType none none (form.fields.erase "metadata")).2 "kind" :=
    Dict.get?_ofList (hrest.sublist (takeType_sublist none none _))
  refine hbody.trans ?_
  have hapiVersion := hfind "apiVersion" (by decide)
  cases hv : form.field? "apiVersion" with
  | none =>
    refine takeType_kind_gone none none hrest fun v habsurd => ?_
    rw [hapiVersion, hv] at habsurd
    cases habsurd
  | some v =>
    cases htext : v.string? with
    | none =>
      rw [takeType_kind_left none none hrest (hapiVersion.trans hv) htext, hfind _ (by decide)]
      simp [htext]
    | some s =>
      have hgone : Dict.get? (takeType none none (form.fields.erase "metadata")).2 "kind" = none :=
        takeType_kind_gone none none hrest fun w hw => ⟨rfl, by
          obtain rfl := Option.some.inj ((hapiVersion.trans hv).symm.trans hw)
          simp [htext]⟩
      rw [hgone]
      simp [htext]

/-- The metadata of a resource are read from the field of that name, if there is one. -/
theorem metadata_cases_of_ofJson (h : ofJson form = .ok r) :
    form.field? "metadata" = none ∧ r.metadata = {} ∨ ∃ value,
      form.field? "metadata" = some value ∧ Metadata.decode.meaning value = some r.metadata := by
  obtain ⟨metadata, hmetadata, h⟩ := Option.bind_eq_some_iff.mp (ofJson_eq_ok.mp h)
  obtain rfl : r.metadata = metadata := by rw [← Option.some.inj h]
  obtain ⟨entries, rfl, hfields⟩ := (Decode.meaning_record (by decide)).mp hmetadata
  obtain ⟨given?, hgiven, hr⟩ := Decode.meaning_map.mp hfields
  obtain ⟨hnone, rfl⟩ | ⟨value, m, hvalue, hm, rfl⟩ := Decode.given_eq_some.mp hgiven
  · exact .inl ⟨hnone, hr.symm⟩
  · exact .inr ⟨value, hvalue, hr ▸ hm⟩

theorem meaning_of_ofJson (h : ofJson form = .ok r) {value : Json}
    (hfield : form.field? "metadata" = some value) :
    Metadata.decode.meaning value = some r.metadata := by
  obtain ⟨hnone, -⟩ | ⟨value', hfield', hread⟩ := metadata_cases_of_ofJson h
  · rw [hnone] at hfield
    cases hfield
  · obtain rfl := Option.some.inj (hfield.symm.trans hfield')
    exact hread

/-- An object is the form of a resource if its metadata can be read. -/
theorem exists_ofJson (hobject : form.isObject = true) {value : Json}
    (hfield : form.field? "metadata" = some value) (hm : Metadata.decode.meaning value = some m) :
    ∃ r, ofJson form = .ok r ∧ r.metadata = m := by
  obtain ⟨entries, rfl⟩ := Json.exists_fields hobject
  have hmetadata : decodeMetadata.meaning (.object entries) = some m :=
    Decode.givenOr_of_get? value hfield hm
  refine ⟨_, ofJson_eq_ok.mpr (Option.bind_eq_some_iff.mpr ⟨m, hmetadata, rfl⟩), rfl⟩

theorem eq_of_parts (htype : r'.typeMeta = r.typeMeta) (hmetadata : r'.metadata = r.metadata)
    (hbody : r'.body = r.body) : r' = r := by
  obtain ⟨type, metadata, body⟩ := r
  obtain rfl : r'.typeMeta = type := htype
  obtain rfl : r'.metadata = metadata := hmetadata
  obtain rfl : r'.body = body := hbody
  rfl

theorem Proper.field?_metadata (h : r.Proper) :
    r.encode.field? "metadata" = some r.metadata.encode := by
  rw [field?_encode h, h.metadata]
  simp

theorem Proper.field?_body (h : r.Proper) {name : String} (hname : name ∉ headerNames) :
    r.encode.field? name = r.body.get? name :=
  (h.standsIn_encode.body name hname).symm

/-- Bodies are the same if they have the same fields outside of the header and the same kind left
over. -/
theorem Proper.body_eq (h : r.Proper) (h' : r'.Proper)
    (hkind : r'.body.get? "kind" = r.body.get? "kind")
    (hbody : ∀ name ∉ headerNames, r'.body.get? name = r.body.get? name) : r'.body = r.body := by
  refine h'.sorted.ext h.sorted fun name => ?_
  by_cases hname : name ∈ headerNames
  · simp only [headerNames, List.mem_cons, List.not_mem_nil, or_false] at hname
    obtain rfl | rfl | rfl := hname
    · rw [h.apiVersion, h'.apiVersion]
    · exact hkind
    · rw [h.metadata, h'.metadata]
  · exact hbody name hname

/-- An object with the header of a resource is the form of a resource. -/
theorem exists_of_sameHeader (hr : r.Proper) (hlegible : r.metadata.Legible)
    (hobject : form.isObject = true) (hsame : Identity.SameHeader r.encode form) :
    ∃ r', ofJson form = .ok r' := by
  have hmetadata : form.field? "metadata" = some r.metadata.encode :=
    (hsame.field "metadata" (by simp [headerNames])).trans hr.field?_metadata
  obtain ⟨r', hread, -⟩ := exists_ofJson hobject hmetadata (Metadata.meaning_encode hlegible)
  exact ⟨r', hread⟩

/-- What is read from a form with the header of a resource: all but the body is the same. -/
theorem of_sameHeader (hr : r.Proper) (hlegible : r.metadata.Legible)
    (hsame : Identity.SameHeader r.encode form) (h : ofJson form = .ok r') :
    r'.Proper ∧ r'.typeMeta = r.typeMeta ∧ r'.metadata = r.metadata ∧ r'.body.get? "kind" = none ∧
      ∀ name ∉ headerNames, r'.body.get? name = form.field? name := by
  obtain ⟨htype, hproper, hstands⟩ := of_ofJson h hsame.sorted
  refine ⟨hproper, ?_, ?_, ?_, hstands.body⟩
  · rw [htype, hsame.typing, hr.typeMeta_encode]
  · have hread := meaning_of_ofJson h
      ((hsame.field "metadata" (by simp [headerNames])).trans hr.field?_metadata)
    rw [Metadata.meaning_encode hlegible] at hread
    exact (Option.some.inj hread).symm
  · rw [kind_of_ofJson h hsame.sorted, hsame.field "apiVersion" (by simp [headerNames]),
      hr.field?_apiVersion]
    cases r.typeMeta <;> simp [Json.string?]

end Resource

/-! ### Patching again -/

namespace Patch

open Resource

variable {source? : PatchType → Option Json} {patches : List Patch} {r r' patched : Resource}
  {place : Nat} {after : Json}

theorem sameHeader_of_copyFields (havoid : Writing.Avoid headerNames (writings source? patches))
    (h : copyFields source? place patches r.encode = .ok after) :
    after.isObject = true ∧ Identity.SameHeader r.encode after := by
  obtain ⟨hobject, hsorted, hfield⟩ :=
    Json.writeAll_avoid writings_ne_nil havoid rfl (copyFields_iff.mp h).2
  exact ⟨hobject, hsorted r.encode_sorted, hfield⟩

/-- Patches that keep out of the header leave all but the body as it is. -/
theorem of_applyTo (hr : r.Proper) (hlegible : r.metadata.Legible)
    (havoid : Writing.Avoid headerNames (writings source? patches))
    (h : applyTo source? patches r = .ok patched) :
    patched.Proper ∧ patched.typeMeta = r.typeMeta ∧ patched.metadata = r.metadata ∧
      (patched.body.get? "kind" = none ∨ patched.body.get? "kind" = r.body.get? "kind") := by
  obtain ⟨form, hform, hread⟩ | ⟨-, rfl⟩ := applyTo_eq_ok h
  · obtain ⟨-, hsame⟩ := sameHeader_of_copyFields havoid hform
    obtain ⟨hproper, htype, hmetadata, hkind, -⟩ := of_sameHeader hr hlegible hsame hread
    exact ⟨hproper, htype, hmetadata, .inl hkind⟩
  · exact ⟨hr, rfl, rfl, .inr rfl⟩

/-- Patches that keep out of the header and never step back make the same of a resource again, if the
same is laid over it each time. -/
theorem applyTo_again (tops olds : String → Option Json) (hr : r.Proper) (hr' : r'.Proper)
    (hlegible : r.metadata.Legible) (hlegible' : r'.metadata.Legible)
    (havoid : Writing.Avoid headerNames (writings source? patches))
    (honward : Writing.Onward (writings source? patches))
    (htops : ∀ name ∉ headerNames, ∀ top ∈ tops name, top.Ordered)
    (holds : ∀ name ∉ headerNames, ((olds name).getD .null).Ordered)
    (h : applyTo source? patches r = .ok patched) (htype : r'.typeMeta = r.typeMeta)
    (hkind : patched.body.get? "kind" = r.body.get? "kind" →
      r'.body.get? "kind" = r.body.get? "kind")
    (hlaid : ∀ name ∉ headerNames, r.body.get? name = Json.laid (tops name) (olds name))
    (hlaid' : ∀ name ∉ headerNames,
      r'.body.get? name = Json.laid (tops name) (patched.body.get? name)) :
    applyTo source? patches r' = .ok { patched with metadata := r'.metadata } := by
  by_cases hany : (patches.any fun p => (source? p.type).isSome) = true
  · have hcopying (r : Resource) : applyTo source? patches r =
        (copyFields source? 0 patches r.encode).bind fun form =>
          (ofJson form).mapError (.resource r.nameAny) := by
      rw [applyTo, if_pos hany]
      rfl
    obtain ⟨form, hform, hread⟩ | ⟨hnone, -⟩ := applyTo_eq_ok h
    · obtain ⟨hprovided, hwritten⟩ := copyFields_iff.mp hform
      obtain ⟨-, hsame⟩ := sameHeader_of_copyFields havoid hform
      obtain ⟨hproper, htype₁, -, hkind₁, hbody₁⟩ := of_sameHeader hr hlegible hsame hread
      obtain ⟨form', hwritten', hfield⟩ := Json.writeAll_object_again writings_ne_nil honward havoid
        htops holds rfl (rfl : r'.encode.isObject = true) hwritten
        (fun name hname => (hr.field?_body hname).trans (hlaid name hname))
        fun name hname => by rw [hr'.field?_body hname, hlaid' name hname, hbody₁ name hname]
      have hform' : copyFields source? 0 patches r'.encode = .ok form' :=
        copyFields_iff.mpr ⟨hprovided, hwritten'⟩
      obtain ⟨hobject', hsame'⟩ := sameHeader_of_copyFields havoid hform'
      obtain ⟨read, hread'⟩ := exists_of_sameHeader hr' hlegible' hobject' hsame'
      obtain ⟨hproper', htype₂, hmetadata₂, hkind₂, hbody₂⟩ :=
        of_sameHeader hr' hlegible' hsame' hread'
      have hbody : read.body = patched.body :=
        hproper.body_eq hproper' (hkind₂.trans hkind₁.symm) fun name hname => by
          rw [hbody₂ name hname, hfield name hname, hbody₁ name hname]
      obtain rfl : read = { patched with metadata := r'.metadata } :=
        eq_of_parts (htype₂.trans (htype.trans htype₁.symm)) hmetadata₂ hbody
      rw [hcopying, hform', Except.bind, hread']
      rfl
    · simp only [List.any_eq_true] at hany
      obtain ⟨p, hp, hsource⟩ := hany
      simp [hnone p hp] at hsource
  · -- Without a patch of this direction, what was laid over once is laid over twice.
    obtain rfl : r = patched := by
      rw [applyTo, if_neg hany] at h
      exact Except.ok.inj h
    have hbody : r'.body = r.body := hr.body_eq hr' (hkind rfl) fun name hname => by
      rw [hlaid' name hname, hlaid name hname,
        Json.laid_laid (htops name hname) (holds name hname)]
    rw [applyTo, if_neg hany]
    exact congrArg Except.ok (eq_of_parts htype rfl hbody)

end Patch

end ResourceComposition
