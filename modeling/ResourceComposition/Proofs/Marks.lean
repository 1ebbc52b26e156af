import ResourceComposition.Proofs.Legibility

/-!
# Marks set again

The metadata of a composed resource are what a template lays over the ones from before, with marks
set and a few parts put in. Laying the same over the result and setting the same marks again gives
the result again (`Metadata.again`). Only the owners may be those from before, since nothing but the
template was laid over them.
-/

namespace ResourceComposition

/-! ### Entries written again -/

namespace Dict

variable {β γ : Type} {d top : Dict β} {k : String}

theorem mapValues_insert (f : β → γ) (k : String) (v : β) (d : Dict β) :
    (d.insert k v).mapValues f = (d.mapValues f).insert k (f v) := by
  induction d with
  | nil => rfl
  | cons entry rest ih =>
    obtain ⟨key, value⟩ := entry
    simp only [insert, mapValues, List.map_cons] at ih ⊢
    split
    · rfl
    · split
      · rfl
      · rw [List.map_cons, ih]

/-- Writing entries either sets a key, to a value of theirs, or leaves it alone. -/
theorem get?_insertAll_cases (marks : Dict β) (k : String) :
    (∃ v, ∀ d : Dict β, (d.insertAll marks).get? k = some v) ∨
      ∀ d : Dict β, (d.insertAll marks).get? k = d.get? k := by
  induction marks with
  | nil => exact .inr fun _ => rfl
  | cons mark rest ih =>
    obtain ⟨v, hv⟩ | hleft := ih
    · exact .inl ⟨v, fun d => hv _⟩
    · by_cases hk : mark.1 = k
      · subst hk
        exact .inl ⟨mark.2, fun d => (hleft _).trans (get?_insert_self _ _ _)⟩
      · exact .inr fun d => (hleft _).trans (get?_insert_of_ne _ _ hk)

/-- Writing the same entries twice, with others in between each time, is the same as doing so once. -/
theorem insertAll_again (marks : Dict β) (hd : d.Sorted) (htop : top.Sorted) :
    (((d.insertAll top).insertAll marks).insertAll top).insertAll marks =
      (d.insertAll top).insertAll marks := by
  refine Sorted.ext hd.insertAll.insertAll.insertAll.insertAll hd.insertAll.insertAll fun k => ?_
  obtain ⟨v, hset⟩ | hleft := get?_insertAll_cases marks k
  · rw [hset, hset]
  · rw [hleft, hleft, get?_insertAll htop, hleft, get?_insertAll htop, ← Option.or_assoc,
      Option.or_self]

end Dict

namespace Metadata

/-! ### Texts over texts -/

variable {top : Json} {texts : Dict String} {o : Option (Dict String)}

theorem encodeTexts_inj {upper : Dict String} (h : encodeTexts texts = encodeTexts upper) :
    texts = upper :=
  Option.some.inj ((Decode.meaning_texts.mpr rfl).symm.trans (Decode.meaning_texts.mpr h))

theorem overlay_texts (texts top : Dict String) :
    (encodeTexts texts).overlay (encodeTexts top) = encodeTexts (texts.insertAll top) := by
  rw [encodeTexts, encodeTexts, Json.overlay]
  refine congrArg Json.object ?_
  induction top generalizing texts with
  | nil => rfl
  | cons entry rest ih =>
    have hcons : Dict.mapValues Json.string (entry :: rest) =
        (entry.1, .string entry.2) :: Dict.mapValues Json.string rest := rfl
    rw [hcons, Json.overlayFields, Json.overlay_of_not_object rfl, ← Dict.mapValues_insert]
    exact ih _

theorem laid_texts {top : Dict String} (htop : top.Sorted) (o : Option (Dict String)) :
    Json.laid (some (encodeTexts top)) (o.map encodeTexts) =
      some (encodeTexts ((o.getD []).insertAll top)) := by
  cases o with
  | some texts => exact congrArg some (overlay_texts texts top)
  | none =>
    have hsame : Dict.insertAll [] top = top :=
      Dict.sorted_ofList.ext htop fun k => Dict.get?_ofList htop
    rw [Option.getD_none, hsame]
    exact congrArg some (Json.overlay_of_target_not_object rfl _)

theorem exists_texts {fields : Dict Json} (h : ∀ entry ∈ fields, ∃ s, entry.2 = .string s) :
    ∃ texts : Dict String, Json.object fields = encodeTexts texts := by
  induction fields with
  | nil => exact ⟨[], rfl⟩
  | cons entry rest ih =>
    obtain ⟨⟨s, hs⟩, hrest⟩ := List.forall_mem_cons.mp h
    obtain ⟨texts, htexts⟩ := ih hrest
    refine ⟨(entry.1, s) :: texts, ?_⟩
    rw [Json.object.inj htexts]
    exact congrArg (fun v => Json.object ((entry.1, v) :: texts.mapValues .string)) hs

theorem sorted_of_ordered (h : (encodeTexts texts).Ordered) : texts.Sorted := by
  refine (Dict.sorted_iff_keys ?_).mp h.1
  rw [Dict.mapValues, List.map_map]
  rfl

theorem sorted_of_optional_texts {entries : Dict Json} {name : String}
    (hentries : ∀ v, entries.get? name = some v → v.Ordered)
    (h : (Decode.optional name (Decode.dict Decode.string)).meaning entries = some o) :
    (o.getD []).Sorted := by
  simp only [Decode.optional] at h
  split at h
  · obtain rfl := Option.some.inj h
    exact Dict.sorted_nil
  · obtain rfl := Option.some.inj h
    exact Dict.sorted_nil
  · next v _ hv =>
    obtain ⟨texts, htexts, rfl⟩ := Option.map_eq_some_iff.mp h
    exact sorted_of_ordered (Decode.meaning_texts.mp htexts ▸ hentries v hv)

/-- What is laid over texts, and leaves them texts, are texts. -/
theorem texts_of_laid (htop : top.Ordered) (hobject : top.isObject = true)
    (h : Json.laid (some top) (o.map encodeTexts) = some (encodeTexts texts)) :
    ∃ upper : Dict String, upper.Sorted ∧ top = encodeTexts upper := by
  cases top with
  | object fields =>
    have htext : ∀ entry ∈ fields, ∃ s, entry.2 = .string s := by
      rintro ⟨name, v⟩ hentry
      have hfield := Json.field?_overlay_object ((o.map encodeTexts).getD .null) htop.1 name
      rw [Option.some.inj h, htop.1.get?_of_mem hentry, encodeTexts, Json.field?_object,
        Dict.get?_mapValues] at hfield
      obtain ⟨s, -, hs⟩ := Option.map_eq_some_iff.mp hfield
      have htext := Json.string?_overlay ((((o.map encodeTexts).getD .null).field? name).getD .null) v
      rw [← hs] at htext
      cases v <;> cases htext
      exact ⟨s, rfl⟩
    obtain ⟨upper, hover⟩ := exists_texts htext
    exact ⟨upper, sorted_of_ordered (hover ▸ htop), hover⟩
  | _ => cases hobject

/-! ### Marks -/

/-- Texts with marks set among them; without marks, nothing changes. -/
def marked (marks : List (String × String)) (o : Option (Dict String)) : Option (Dict String) :=
  match marks with
  | [] => o
  | _ :: _ => some ((o.getD []).insertAll marks)

theorem foldl_setLabel (labels : List (String × String)) (m : Metadata) :
    labels.foldl (fun m label => m.setLabel label.1 label.2) m =
      { m with labels := marked labels m.labels } := by
  induction labels generalizing m with
  | nil => rfl
  | cons label rest ih =>
    rw [List.foldl_cons, ih]
    cases rest <;> rfl

theorem marked_marked (marks : List (String × String)) (ho : (o.getD []).Sorted) :
    marked marks (marked marks o) = marked marks o := by
  cases marks with
  | nil => rfl
  | cons mark rest =>
    exact congrArg some (Dict.insertAll_again (mark :: rest) ho Dict.sorted_nil)

theorem marked_laid {upper : Dict String} (marks : List (String × String)) (ho : (o.getD []).Sorted)
    (hover : upper.Sorted) :
    marked marks
        (some (((marked marks (some ((o.getD []).insertAll upper))).getD []).insertAll upper)) =
      marked marks (some ((o.getD []).insertAll upper)) := by
  cases marks with
  | nil => exact congrArg some (Dict.insertAll_again [] ho hover)
  | cons mark rest => exact congrArg some (Dict.insertAll_again (mark :: rest) ho hover)

/-- Texts that were laid over and marked are the same after they are laid over and marked again. -/
theorem optional_texts_again {entries entries' : Dict Json} {name : String} {top? : Option Json}
    {first : Option (Dict String)} (marks : List (String × String))
    (htop : ∀ top ∈ top?, top.Ordered) (ho : (o.getD []).Sorted)
    (hget : entries.get? name = Json.laid top? (o.map encodeTexts))
    (h : (Decode.optional name (Decode.dict Decode.string)).meaning entries = some first)
    (hget' : entries'.get? name = Json.laid top? ((marked marks first).map encodeTexts)) :
    ∃ again, (Decode.optional name (Decode.dict Decode.string)).meaning entries' = some again ∧
      marked marks again = marked marks first := by
  have hread {d : Dict Json} {p : Option (Dict String)} (hp : d.get? name = p.map encodeTexts) :
      (Decode.optional name (Decode.dict Decode.string)).meaning d = some p :=
    Decode.optional_of_readable hp fun texts _ => Decode.readable_texts texts
  cases top? with
  | none =>
    obtain rfl : o = first := Option.some.inj ((hread hget).symm.trans h)
    exact ⟨_, hread hget', marked_marked marks ho⟩
  | some top =>
    by_cases hobject : top.isObject = true
    · obtain ⟨texts, rfl, htexts⟩ : ∃ texts, first = some texts ∧
          Json.laid (some top) (o.map encodeTexts) = some (encodeTexts texts) := by
        obtain ⟨fields, rfl⟩ := Json.exists_fields hobject
        obtain ⟨fields', hfields⟩ :=
          Json.exists_fields (Json.isObject_overlay_object ((o.map encodeTexts).getD .null) fields)
        rw [Json.laid, hfields] at hget ⊢
        simp only [Decode.optional, hget, Option.map_eq_some_iff, Decode.meaning_texts] at h
        obtain ⟨texts, htexts, rfl⟩ := h
        exact ⟨texts, rfl, congrArg some htexts⟩
      obtain ⟨upper, hover, rfl⟩ := texts_of_laid (htop _ rfl) hobject htexts
      rw [laid_texts hover] at htexts hget'
      obtain rfl := encodeTexts_inj (Option.some.inj htexts)
      exact ⟨some _, hread hget', marked_laid marks ho hover⟩
    · -- What is no object hides all that it is laid over.
      rw [Json.laid, Json.overlay_of_not_object (by simpa using hobject)] at hget hget'
      refine ⟨first, ?_, rfl⟩
      simpa only [Decode.optional, hget, hget'] using h

/-! ### Metadata -/

/-- Metadata with marks set in the annotations and the labels, and with a name, a namespace and the
beginning of a name put in. -/
def identified (notes labels : List (String × String)) (generateName name ns : Option String)
    (m : Metadata) : Metadata :=
  { m with
    annotations := marked notes m.annotations, labels := marked labels m.labels
    generateName, name, ns }

variable {m m₀ r : Metadata} {top? : Option Json} {notes labels : List (String × String)}
  {generateName name ns : Option String} {owners : Option (List OwnerReference)} {form? : Option Json}

theorem Legible.identified (h : m.Legible) (notes labels : List (String × String))
    (generateName name ns : Option String) : (m.identified notes labels generateName name ns).Legible :=
  ⟨h.creationTimestamp, h.deletionGracePeriodSeconds, h.deletionTimestamp, h.generation,
    h.managedFields⟩

/-- If metadata can be read from something with a value laid over it, the value is an object. -/
theorem isObject_of_meaning (h : decode.meaning ((Json.laid top? form?).getD .null) = some m) :
    ∀ top ∈ top?, top.isObject = true := by
  rintro top rfl
  obtain ⟨entries, hentries, -⟩ := meaning_eq_some.mp h
  refine Decidable.byContradiction fun hnot => hnot ?_
  rw [Json.laid, Option.getD_some, Json.overlay_of_not_object (by simpa using hnot)] at hentries
  rw [hentries]
  rfl

/-- The fields of metadata over which an object is laid. -/
theorem exists_laid (m : Metadata) (htop : ∀ top ∈ top?, top.isObject = true ∧ top.Ordered) :
    ∃ entries : Dict Json, (Json.laid top? (some m.encode)).getD .null = .object entries ∧
      ∀ name, entries.get? name =
        Json.laid ((top?.getD .null).field? name) (m.encode.field? name) := by
  have hobject : ((Json.laid top? (some m.encode)).getD .null).isObject = true := by
    cases top? with
    | none => rfl
    | some top =>
      obtain ⟨source, rfl⟩ := Json.exists_fields (htop top rfl).1
      exact Json.isObject_overlay_object m.encode source
  obtain ⟨entries, hentries⟩ := Json.exists_fields hobject
  refine ⟨entries, hentries, fun name => ?_⟩
  rw [← Json.field?_object, ← hentries]
  exact Json.field?_laid htop _ name

section

variable {entries entries' : Dict Json} {tops : String → Option Json}

/-- A part of metadata that was laid over is read again with the same laid over it. -/
theorem optional_again {α : Type} {d : Decoder α} {write : α → Json} {field : String}
    {first o : Option α}
    (hget : ∀ name, entries.get? name = Json.laid (tops name) (m₀.encode.field? name))
    (hget' : ∀ name, entries'.get? name = Json.laid (tops name) (r.encode.field? name))
    (hobject : ∀ fields, d.meaning (.object fields) = none)
    (h : (Decode.optional field d).meaning entries = some first)
    (ho : ∀ a ∈ o, Decode.Readable d write a) (hwritten : r.encode.field? field = o.map write) :
    (Decode.optional field d).meaning entries' = some (if (tops field).isSome then first else o) :=
  Decode.optional_laid hobject (hget field) h ((hget' field).trans (congrArg _ hwritten)) ho

theorem optional_kept {α : Type} {d : Decoder α} {write : α → Json} {field : String} {o : Option α}
    (hget : ∀ name, entries.get? name = Json.laid (tops name) (m₀.encode.field? name))
    (hget' : ∀ name, entries'.get? name = Json.laid (tops name) (r.encode.field? name))
    (hobject : ∀ fields, d.meaning (.object fields) = none)
    (h : (Decode.optional field d).meaning entries = some o)
    (ho : ∀ a ∈ o, Decode.Readable d write a) (hwritten : r.encode.field? field = o.map write) :
    (Decode.optional field d).meaning entries' = some o := by
  simpa using optional_again hget hget' hobject h ho hwritten

/-- Fields that were laid over, marked and given owners are read again, and marked again, as the
same, up to the owners. -/
theorem ReadFrom.again (hover : ∀ name, ∀ top ∈ tops name, top.Ordered)
    (hnotes : (m₀.annotations.getD []).Sorted) (hlabels : (m₀.labels.getD []).Sorted)
    (h : m.ReadFrom entries)
    (hr : r = { m.identified notes labels generateName name ns with ownerReferences := owners })
    (hget : ∀ name, entries.get? name = Json.laid (tops name) (m₀.encode.field? name))
    (hget' : ∀ name, entries'.get? name = Json.laid (tops name) (r.encode.field? name)) :
    ∃ (again : Metadata) (owners' : Option (List OwnerReference)), again.ReadFrom entries' ∧
      again.identified notes labels generateName name ns = { r with ownerReferences := owners' } ∧
      (owners' = m.ownerReferences ∨ owners' = owners) := by
  have hlegible := h.legible
  have htext (s : String) := Decode.readable_string s
  subst hr
  obtain ⟨annotations, hannotations, hnotes'⟩ := optional_texts_again notes (hover "annotations")
    hnotes ((hget _).trans (by simp [encode, Json.ofPresent_eq])) h.annotations
    ((hget' _).trans (by simp [encode, Json.ofPresent_eq, identified]))
  obtain ⟨labels', hlabelled, hlabels'⟩ := optional_texts_again labels (hover "labels")
    hlabels ((hget _).trans (by simp [encode, Json.ofPresent_eq])) h.labels
    ((hget' _).trans (by simp [encode, Json.ofPresent_eq, identified]))
  -- A part that something is laid over is as it was read first, any other as it was put in.
  let again : Metadata :=
    { m with
      annotations := annotations
      labels := labels'
      generateName := if (tops "generateName").isSome then m.generateName else generateName
      name := if (tops "name").isSome then m.name else name
      ns := if (tops "namespace").isSome then m.ns else ns
      ownerReferences := if (tops "ownerReferences").isSome then m.ownerReferences else owners }
  refine ⟨again, again.ownerReferences, ?_, by simp only [identified, again, hnotes', hlabels'], ?_⟩
  · constructor
    case annotations => exact hannotations
    case labels => exact hlabelled
    case generateName =>
      exact optional_again hget hget' (fun _ => rfl) h.generateName (fun s _ => htext s)
        (by simp [encode, Json.ofPresent_eq, identified])
    case name =>
      exact optional_again hget hget' (fun _ => rfl) h.name (fun s _ => htext s)
        (by simp [encode, Json.ofPresent_eq, identified])
    case ns =>
      exact optional_again hget hget' (fun _ => rfl) h.ns (fun s _ => htext s)
        (by simp [encode, Json.ofPresent_eq, identified])
    case ownerReferences =>
      exact optional_again hget hget' (fun _ => rfl) h.ownerReferences
        (fun owners _ => Decode.readable_list fun o _ => Decode.readable_owner o)
        (by simp [encode, Json.ofPresent_eq, identified])
    case creationTimestamp =>
      exact optional_kept hget hget' (fun _ => rfl) h.creationTimestamp hlegible.creationTimestamp
        (by simp [encode, Json.ofPresent_eq, identified, again])
    case deletionGracePeriodSeconds =>
      exact optional_kept hget hget' (fun _ => rfl) h.deletionGracePeriodSeconds
        hlegible.deletionGracePeriodSeconds (by simp [encode, Json.ofPresent_eq, identified, again])
    case deletionTimestamp =>
      exact optional_kept hget hget' (fun _ => rfl) h.deletionTimestamp hlegible.deletionTimestamp
        (by simp [encode, Json.ofPresent_eq, identified, again])
    case finalizers =>
      exact optional_kept hget hget' (fun _ => rfl) h.finalizers
        (fun names _ => Decode.readable_list fun s _ => htext s)
        (by simp [encode, Json.ofPresent_eq, identified, again])
    case generation =>
      exact optional_kept hget hget' (fun _ => rfl) h.generation hlegible.generation
        (by simp [encode, Json.ofPresent_eq, identified, again])
    case managedFields =>
      exact optional_kept hget hget' (fun _ => rfl) h.managedFields hlegible.managedFields
        (by simp [encode, Json.ofPresent_eq, identified, again])
    case resourceVersion =>
      exact optional_kept hget hget' (fun _ => rfl) h.resourceVersion (fun s _ => htext s)
        (by simp [encode, Json.ofPresent_eq, identified, again])
    case selfLink =>
      exact optional_kept hget hget' (fun _ => rfl) h.selfLink (fun s _ => htext s)
        (by simp [encode, Json.ofPresent_eq, identified, again])
    case uid =>
      exact optional_kept hget hget' (fun _ => rfl) h.uid (fun s _ => htext s)
        (by simp [encode, Json.ofPresent_eq, identified, again])
  · simp only [again]
    split
    · exact .inl rfl
    · exact .inr rfl

end

/-- Metadata that were laid over, marked and given owners are the same after they are laid over and
marked again, up to the owners. -/
theorem again (htop : ∀ top ∈ top?, top.Ordered) (hnotes : (m₀.annotations.getD []).Sorted)
    (hlabels : (m₀.labels.getD []).Sorted)
    (h : decode.meaning ((Json.laid top? (some m₀.encode)).getD .null) = some m)
    (hr : r = { m.identified notes labels generateName name ns with ownerReferences := owners }) :
    ∃ again owners', decode.meaning ((Json.laid top? (some r.encode)).getD .null) = some again ∧
      again.identified notes labels generateName name ns = { r with ownerReferences := owners' } ∧
      (owners' = m.ownerReferences ∨ owners' = owners) := by
  have hobject : ∀ top ∈ top?, top.isObject = true ∧ top.Ordered :=
    fun top htop' => ⟨isObject_of_meaning h top htop', htop top htop'⟩
  have hover (name : String) : ∀ top ∈ (top?.getD .null).field? name, top.Ordered := by
    cases top? with
    | none => nofun
    | some top => exact fun source hsource => (htop top rfl).field? hsource
  obtain ⟨entries, hentries, hget⟩ := exists_laid m₀ hobject
  obtain ⟨entries', hentries', hget'⟩ := exists_laid r hobject
  obtain ⟨_, hsame, hread⟩ := meaning_eq_some.mp h
  obtain rfl := Json.object.inj (hentries.symm.trans hsame)
  obtain ⟨again, owners', hagain, hidentified, howners⟩ :=
    hread.again hover hnotes hlabels hr hget hget'
  exact ⟨again, owners', meaning_eq_some.mpr ⟨entries', hentries', hagain⟩, hidentified, howners⟩

end Metadata

end ResourceComposition
