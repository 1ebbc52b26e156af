import ResourceComposition.Proofs.Tidiness

/-!
# Writing again

Several values are written into one, first to last, and later ones may fall on what earlier ones
wrote. `writeAll` does that to a place that may be missing. Written again over their own result,
they lead to the same result, as long as none of them steps back to a place above an earlier one
(`Writing.Onward`); and this stays so if something was laid over the value each time before
(`writeAll_again`).

The proof takes one step down all paths at once. What is written below a field hangs on the writings
that begin with that field, and likewise below an index; so the claim for some writings follows from
the claim for the shorter ones of each field or index.
-/

namespace ResourceComposition

/-! ### Dictionaries with the same entries -/

/-- In order, a dictionary is given by what is found in it. -/
theorem Dict.Sorted.ext {β : Type} {d e : Dict β} (hd : d.Sorted) (he : e.Sorted)
    (h : ∀ k, d.get? k = e.get? k) : d = e := by
  have hnodup {d : Dict β} (hd : d.Sorted) : d.Nodup := by
    refine List.Pairwise.imp (fun {a b} hlt heq => ?_) hd
    exact String.lt_irrefl b.1 (heq ▸ hlt)
  have hlt : ∀ a b : String × β, a ∈ d → b ∈ e → a.1 < b.1 → b.1 < a.1 → a = b :=
    fun a b _ _ hab hba => absurd (String.lt_trans hab hba) (String.lt_irrefl a.1)
  refine List.Perm.eq_of_pairwise hlt hd he
    ((List.perm_ext_iff_of_nodup (hnodup hd) (hnodup he)).mpr fun ⟨k, v⟩ => ?_)
  constructor
  · intro hmem
    exact mem_of_get? ((h k).symm.trans (hd.get?_of_mem hmem))
  · intro hmem
    exact mem_of_get? ((h k).trans (he.get?_of_mem hmem))

namespace Json

/-! ### Laying over twice -/

theorem exists_fields {v : Json} (h : v.isObject = true) : ∃ fields, v = .object fields := by
  cases v with
  | object fields => exact ⟨fields, rfl⟩
  | _ => cases h

theorem overlay_of_not_object {source : Json} (h : source.isObject = false) (target : Json) :
    target.overlay source = source := by
  cases source with
  | object fields => cases h
  | _ => simp [overlay]

theorem overlay_of_target_not_object {target : Json} (h : target.isObject = false)
    (source : Json) : target.overlay source = source := by
  cases target with
  | object fields => cases h
  | _ => cases source <;> simp [overlay]

/-- Lay a value over a place that may be missing, if there is one to be laid over it. -/
def laid (top? o : Option Json) : Option Json :=
  match top? with
  | none => o
  | some top => some ((o.getD .null).overlay top)

/-- A field of something over which an object was laid. -/
theorem field?_overlay_object (target : Json) {source : Dict Json} (h : source.Sorted)
    (name : String) : (target.overlay (.object source)).field? name =
      laid (source.get? name) (target.field? name) := by
  by_cases htarget : target.isObject = true
  · obtain ⟨fields, rfl⟩ := exists_fields htarget
    rw [overlay, field?_object, get?_overlayFields h]
    cases source.get? name <;> rfl
  · have hnone : target.field? name = none := by
      cases target <;> first | rfl | exact absurd rfl htarget
    rw [overlay_of_target_not_object (by simpa using htarget), field?_object, hnone]
    cases source.get? name with
    | none => rfl
    | some v => exact congrArg some (overlay_of_target_not_object rfl v).symm

/-- Objects in order are the same if they have the same fields. -/
theorem Ordered.eq_of_field? {v w : Json} (hv : v.Ordered) (hw : w.Ordered)
    (hobject : v.isObject = true) (hobject' : w.isObject = true)
    (h : ∀ name, v.field? name = w.field? name) : v = w := by
  obtain ⟨fields, rfl⟩ := exists_fields hobject
  obtain ⟨fields', rfl⟩ := exists_fields hobject'
  exact congrArg Json.object (hv.1.ext hw.1 h)

theorem isObject_overlay_object (target : Json) (source : Dict Json) :
    (target.overlay (.object source)).isObject = true := by
  cases target <;> simp [overlay, isObject]

/-- What is laid over a value decides whether the result is a text. -/
theorem string?_overlay (target source : Json) : (target.overlay source).string? = source.string? := by
  by_cases hsource : source.isObject = true
  · obtain ⟨fields, rfl⟩ := exists_fields hsource
    obtain ⟨fields', hfields⟩ := exists_fields (isObject_overlay_object target fields)
    rw [hfields]
    rfl
  · rw [overlay_of_not_object (by simpa using hsource)]

mutual

/-- Laying the same value over another a second time changes nothing. -/
theorem overlay_overlay {target : Json} (htarget : target.Ordered) :
    {source : Json} → source.Ordered → (target.overlay source).overlay source = target.overlay source
  | .object source, hsource => by
    have honce : (target.overlay (.object source)).Ordered := htarget.overlay hsource
    refine Ordered.eq_of_field? (honce.overlay hsource) honce (isObject_overlay_object _ _)
      (isObject_overlay_object _ _) fun name => ?_
    rw [field?_overlay_object _ hsource.1, field?_overlay_object _ hsource.1]
    cases hv : Dict.get? source name with
    | none => rfl
    | some v =>
      exact congrArg some (overlay_overlay_below hsource.2 hv (htarget.getD_field? name))
  | .null, _ | .bool _, _ | .int _, _ | .float _, _ | .string _, _ | .array _, _ => by
    rw [overlay_of_not_object rfl, overlay_of_not_object rfl]

/-- Nor does it for the value of a field. -/
theorem overlay_overlay_below {target v : Json} {name : String} :
    {source : List (String × Json)} → OrderedFields source → Dict.get? source name = some v →
      target.Ordered → (target.overlay v).overlay v = target.overlay v
  | [], _, hv, _ => by cases hv
  | (key, value) :: rest, hsource, hv, htarget => by
    rw [Dict.get?_cons] at hv
    split at hv
    · obtain rfl := Option.some.inj hv
      exact overlay_overlay htarget hsource.1
    · exact overlay_overlay_below hsource.2 hv htarget

end

theorem laid_laid {top? o : Option Json} (htop : ∀ top ∈ top?, top.Ordered)
    (ho : (o.getD .null).Ordered) : laid top? (laid top? o) = laid top? o := by
  cases top? with
  | none => rfl
  | some top => exact congrArg some (overlay_overlay ho (htop top rfl))

theorem field?_laid {top? : Option Json} (htop : ∀ top ∈ top?, top.isObject = true ∧ top.Ordered)
    (o : Option Json) (name : String) : ((laid top? o).getD .null).field? name =
      laid ((top?.getD .null).field? name) ((o.getD .null).field? name) := by
  cases top? with
  | none => rfl
  | some top =>
    obtain ⟨hobject, hordered⟩ := htop top rfl
    obtain ⟨source, rfl⟩ := exists_fields hobject
    exact field?_overlay_object _ hordered.1 name

theorem ordered_laid {top? o : Option Json} (htop : ∀ top ∈ top?, top.Ordered)
    (ho : (o.getD .null).Ordered) : ((laid top? o).getD .null).Ordered := by
  cases top? with
  | none => exact ho
  | some top => exact ho.overlay (htop top rfl)

end Json

/-! ### Several writings -/

namespace Writing

/-- No writing steps back: none has a path that an earlier one leads on from. -/
def Onward (ws : List Writing) : Prop :=
  ws.Pairwise fun earlier later => ¬ (later.path <+: earlier.path ∧ later.path ≠ earlier.path)

instance (ws : List Writing) : Decidable (Onward ws) :=
  inferInstanceAs (Decidable (ws.Pairwise _))

/-- What of a writing is left below a segment, if it leads there. -/
def below? (segment : Segment) (w : Writing) : Option Writing :=
  match w.path with
  | [] => none
  | first :: rest => if first = segment then some ⟨rest, w.value⟩ else none

/-- The writings that lead below a segment. -/
def below (segment : Segment) (ws : List Writing) : List Writing := ws.filterMap (below? segment)

variable {segment first : Segment} {rest : FieldPath} {v : Json} {w w' : Writing} {ws : List Writing}

theorem below_cons_self :
    below segment (⟨segment :: rest, v⟩ :: ws) = ⟨rest, v⟩ :: below segment ws := by
  simp [below, below?]

theorem below_cons_of_ne (h : first ≠ segment) :
    below segment (⟨first :: rest, v⟩ :: ws) = below segment ws := by
  simp [below, below?, h]

theorem below?_eq_some : below? segment w = some w' ↔
    w = ⟨segment :: w'.path, w'.value⟩ := by
  obtain ⟨path, value⟩ := w
  obtain ⟨path', value'⟩ := w'
  cases path with
  | nil => simp [below?]
  | cons first rest =>
    by_cases h : first = segment <;> simp [below?, h]

theorem mem_below : w ∈ below segment ws ↔ ⟨segment :: w.path, w.value⟩ ∈ ws := by
  simp only [below, List.mem_filterMap, below?_eq_some, exists_eq_right]

theorem ne_nil {α : Type} {f : α → Segment} (h : ∃ a rest, w.path = f a :: rest) : w.path ≠ [] := by
  obtain ⟨a, rest, hpath⟩ := h
  rw [hpath]
  exact List.cons_ne_nil _ _

/-- The writings below a segment step back no more than all do. -/
theorem Onward.below (h : Onward ws) (segment : Segment) : Onward (below segment ws) := by
  refine List.Pairwise.filterMap _ ?_ h
  intro earlier later hnot earlier' hearlier later' hlater
  rw [below?_eq_some] at hearlier hlater
  subst hearlier hlater
  simpa [List.cons_prefix_cons] using hnot

/-- No writing begins with one of some fields. -/
def Avoid (names : List String) (ws : List Writing) : Prop :=
  ∀ w ∈ ws, ∀ name ∈ names, w.path.head? ≠ some (.field name)

instance (names : List String) (ws : List Writing) : Decidable (Avoid names ws) :=
  inferInstanceAs (Decidable (∀ w ∈ ws, ∀ name ∈ names, w.path.head? ≠ some (.field name)))

theorem Avoid.below_eq_nil {names : List String} (h : Avoid names ws) {name : String}
    (hname : name ∈ names) : Writing.below (.field name) ws = [] :=
  List.eq_nil_iff_forall_not_mem.mpr fun _ hw => h _ (mem_below.mp hw) name hname rfl

/-- After a writing at a path, none is at the root. -/
theorem Onward.ne_nil (h : Onward (w :: ws)) (hw : w.path ≠ []) : ∀ w' ∈ w :: ws, w'.path ≠ [] := by
  refine List.forall_mem_cons.mpr ⟨hw, fun later hlater hnil => ?_⟩
  refine (List.pairwise_cons.mp h).1 later hlater ⟨?_, ?_⟩
  · exact hnil ▸ List.nil_prefix
  · exact hnil ▸ hw.symm

/-- The lengths of the paths have a bound. -/
theorem exists_length_le (ws : List Writing) : ∃ n, ∀ w ∈ ws, w.path.length ≤ n := by
  induction ws with
  | nil => exact ⟨0, nofun⟩
  | cons w rest ih =>
    obtain ⟨n, hn⟩ := ih
    refine ⟨max w.path.length n, List.forall_mem_cons.mpr ⟨Nat.le_max_left _ _, fun w' hw' => ?_⟩⟩
    exact Nat.le_trans (hn w' hw') (Nat.le_max_right _ _)

end Writing

namespace Json

open Writing

variable {w : Writing} {ws : List Writing} {o z : Option Json}

/-! ### One step down -/

/-- The result of writing into an object is an object. Each of its fields is the result of writing
below that field. -/
theorem writeAll_object {fields : Dict Json} (hpaths : ∀ w ∈ ws, w.path ≠ [])
    (h : writeAll ws (some (.object fields)) = .ok z) :
    (∀ w ∈ ws, ∃ name rest, w.path = .field name :: rest) ∧
      ∃ fields' : Dict Json, z = some (.object fields') ∧ (fields.Sorted → fields'.Sorted) ∧
        ∀ name, writeAll (below (.field name) ws) (fields.get? name) = .ok (fields'.get? name) := by
  induction ws generalizing fields with
  | nil =>
    obtain rfl := Except.ok.inj h
    exact ⟨nofun, fields, rfl, id, fun _ => rfl⟩
  | cons w rest ih =>
    obtain ⟨hw, hrest⟩ := List.forall_mem_cons.mp hpaths
    obtain ⟨after, hafter, h⟩ := writeAll_cons.mp h
    obtain ⟨path, value⟩ := w
    cases path with
    | nil => exact absurd rfl hw
    | cons segment path =>
      cases segment with
      | index position => simp [write, itemsForWriting, bind, Except.bind] at hafter
      | field name =>
        obtain ⟨_, child, ⟨⟩, hchild, rfl⟩ := write_field_eq_ok.mp hafter
        obtain ⟨hfields, fields', rfl, hsorted, hbelow⟩ := ih hrest h
        refine ⟨List.forall_mem_cons.mpr ⟨⟨name, path, rfl⟩, hfields⟩, fields', rfl,
          fun hs => hsorted hs.insert, fun other => ?_⟩
        have hother := hbelow other
        by_cases hname : name = other
        · subst hname
          rw [Dict.get?_insert_self] at hother
          rw [below_cons_self]
          exact writeAll_cons.mpr ⟨child, hchild, hother⟩
        · rw [Dict.get?_insert_of_ne _ _ hname] at hother
          rwa [below_cons_of_ne (by simpa using hname)]

/-- Writing into an object succeeds if writing below each field does. -/
theorem exists_writeAll_object {fields : Dict Json}
    (hfields : ∀ w ∈ ws, ∃ name rest, w.path = .field name :: rest)
    (h : ∀ name, ∃ c, writeAll (below (.field name) ws) (fields.get? name) = .ok c) :
    ∃ z, writeAll ws (some (.object fields)) = .ok z := by
  induction ws generalizing fields with
  | nil => exact ⟨_, rfl⟩
  | cons w rest ih =>
    obtain ⟨⟨name, path, hpath⟩, hrest⟩ := List.forall_mem_cons.mp hfields
    obtain ⟨_, value⟩ := w
    subst hpath
    obtain ⟨c, hc⟩ := h name
    rw [below_cons_self] at hc
    obtain ⟨child, hchild, hc⟩ := writeAll_cons.mp hc
    have hwrite : write value (.field name :: path) (.object fields) =
        .ok (.object (fields.insert name child)) :=
      write_field_eq_ok.mpr ⟨fields, child, rfl, hchild, rfl⟩
    have hlater (other : String) : ∃ c,
        writeAll (below (.field other) rest) ((fields.insert name child).get? other) = .ok c := by
      by_cases hname : name = other
      · subst hname
        exact ⟨c, by rwa [Dict.get?_insert_self]⟩
      · rw [Dict.get?_insert_of_ne _ _ hname]
        obtain ⟨c', hc'⟩ := h other
        rw [below_cons_of_ne (by simpa using hname)] at hc'
        exact ⟨c', hc'⟩
    obtain ⟨z, hz⟩ := ih hrest hlater
    exact ⟨z, writeAll_cons.mpr ⟨_, hwrite, hz⟩⟩

/-- Writing into an object leads to the object that has what is written below each field. -/
theorem writeAll_object_eq {fields fields' : Dict Json}
    (hfields : ∀ w ∈ ws, ∃ name rest, w.path = .field name :: rest) (hsorted : fields.Sorted)
    (hsorted' : fields'.Sorted)
    (h : ∀ name, writeAll (below (.field name) ws) (fields.get? name) = .ok (fields'.get? name)) :
    writeAll ws (some (.object fields)) = .ok (some (.object fields')) := by
  obtain ⟨z, hz⟩ := exists_writeAll_object hfields fun name => ⟨_, h name⟩
  obtain ⟨-, found, rfl, hfound, hbelow⟩ := writeAll_object (fun w hw => ne_nil (hfields w hw)) hz
  rw [hz, (hfound hsorted).ext hsorted' fun name => Except.ok.inj ((hbelow name).symm.trans (h name))]

section

variable {items : List Json} {position other n : Nat} {child : Json}

/-- Lists of one length are the same if they have the same items, where null counts for what lies
beyond the end. -/
theorem ext_items {items items' : List Json} (hlength : items.length = items'.length)
    (hitem : ∀ position : Nat, items[position]?.getD .null = items'[position]?.getD .null) :
    items = items' := by
  refine List.ext_getElem hlength fun position hleft hright => ?_
  simpa [hleft, hright] using hitem position

/-- A list with an item put in, filled up as far as needed. -/
def placed (items : List Json) (position : Nat) (child : Json) : List Json :=
  (padded items (position + 1)).set position child

theorem length_placed : (placed items position child).length = max items.length (position + 1) := by
  simp only [placed, padded, List.length_set, List.length_append, List.length_replicate]
  omega

theorem length_placed_le : (placed items position child).length ≤ n ↔
    items.length ≤ n ∧ position < n := by
  rw [length_placed, Nat.max_le, Nat.succ_le_iff]

theorem getD_placed (items : List Json) (position other : Nat) (child : Json) :
    (placed items position child)[other]?.getD .null =
      if position = other then child else items[other]?.getD .null := by
  by_cases hsame : position = other
  · subst hsame
    have hlt : position < (padded items (position + 1)).length := length_padded ..
    simp [placed, hlt]
  · rw [placed, List.getElem?_set_ne hsame, if_neg hsame, getD_padded]

end

/-- The result of writing into a list is a list. It is as long as it was or as the indices ask for,
and each of its items is the result of writing below that index. -/
theorem writeAll_array {items : List Json} (hpaths : ∀ w ∈ ws, w.path ≠ [])
    (h : writeAll ws (some (.array items)) = .ok z) :
    (∀ w ∈ ws, ∃ position rest, w.path = .index position :: rest) ∧
      ∃ items' : List Json, z = some (.array items') ∧
        (∀ n, items'.length ≤ n ↔ items.length ≤ n ∧
          ∀ w ∈ ws, ∀ position rest, w.path = .index position :: rest → position < n) ∧
        ∀ position, writeAll (below (.index position) ws) (some (items[position]?.getD .null)) =
          .ok (some (items'[position]?.getD .null)) := by
  induction ws generalizing items with
  | nil =>
    obtain rfl := Except.ok.inj h
    exact ⟨nofun, items, rfl, by simp, fun _ => rfl⟩
  | cons w rest ih =>
    obtain ⟨hw, hrest⟩ := List.forall_mem_cons.mp hpaths
    obtain ⟨after, hafter, h⟩ := writeAll_cons.mp h
    obtain ⟨path, value⟩ := w
    cases path with
    | nil => exact absurd rfl hw
    | cons segment path =>
      cases segment with
      | field name => simp [write, fieldsForWriting, bind, Except.bind] at hafter
      | index position =>
        obtain ⟨_, child, ⟨⟩, hchild, rfl⟩ := write_index_eq_ok.mp hafter
        rw [← placed] at h
        obtain ⟨hitems, items', rfl, hlength, hbelow⟩ := ih hrest h
        refine ⟨List.forall_mem_cons.mpr ⟨⟨position, path, rfl⟩, hitems⟩, items', rfl,
          fun n => ?_, fun other => ?_⟩
        · rw [hlength, length_placed_le, List.forall_mem_cons, and_assoc]
          simp
        · have hother := hbelow other
          rw [getD_placed] at hother
          by_cases hsame : position = other
          · subst hsame
            rw [if_pos rfl] at hother
            rw [below_cons_self]
            exact writeAll_cons.mpr ⟨child, hchild, hother⟩
          · rw [if_neg hsame] at hother
            rwa [below_cons_of_ne (by simpa using hsame)]

/-- Writing into a list succeeds if writing below each index does. -/
theorem exists_writeAll_array {items : List Json}
    (hitems : ∀ w ∈ ws, ∃ position rest, w.path = .index position :: rest)
    (h : ∀ position, ∃ c,
      writeAll (below (.index position) ws) (some (items[position]?.getD .null)) = .ok c) :
    ∃ z, writeAll ws (some (.array items)) = .ok z := by
  induction ws generalizing items with
  | nil => exact ⟨_, rfl⟩
  | cons w rest ih =>
    obtain ⟨⟨position, path, hpath⟩, hrest⟩ := List.forall_mem_cons.mp hitems
    obtain ⟨_, value⟩ := w
    subst hpath
    obtain ⟨c, hc⟩ := h position
    rw [below_cons_self] at hc
    obtain ⟨child, hchild, hc⟩ := writeAll_cons.mp hc
    have hwrite : write value (.index position :: path) (.array items) =
        .ok (.array (placed items position child)) :=
      write_index_eq_ok.mpr ⟨items, child, rfl, hchild, rfl⟩
    have hlater (other : Nat) : ∃ c, writeAll (below (.index other) rest)
        (some ((placed items position child)[other]?.getD .null)) = .ok c := by
      rw [getD_placed]
      by_cases hsame : position = other
      · subst hsame
        exact ⟨c, by rwa [if_pos rfl]⟩
      · rw [if_neg hsame]
        obtain ⟨c', hc'⟩ := h other
        rw [below_cons_of_ne (by simpa using hsame)] at hc'
        exact ⟨c', hc'⟩
    obtain ⟨z, hz⟩ := ih hrest hlater
    exact ⟨z, writeAll_cons.mpr ⟨_, hwrite, hz⟩⟩

/-- Writing into a list that is long enough leads to the list that has what is written below each
index. -/
theorem writeAll_array_eq {items items' : List Json}
    (hitems : ∀ w ∈ ws, ∃ position rest, w.path = .index position :: rest)
    (hlength : items.length = items'.length)
    (hwithin : ∀ w ∈ ws, ∀ position rest, w.path = .index position :: rest →
      position < items.length)
    (h : ∀ position, writeAll (below (.index position) ws) (some (items[position]?.getD .null)) =
      .ok (some (items'[position]?.getD .null))) :
    writeAll ws (some (.array items)) = .ok (some (.array items')) := by
  obtain ⟨z, hz⟩ := exists_writeAll_array hitems fun position => ⟨_, h position⟩
  obtain ⟨-, found, rfl, hfound, hbelow⟩ := writeAll_array (fun w hw => ne_nil (hitems w hw)) hz
  have hsame : found.length = items.length :=
    Nat.le_antisymm ((hfound _).mpr ⟨Nat.le_refl _, hwithin⟩) ((hfound _).mp (Nat.le_refl _)).1
  have heq : found = items' := ext_items (hsame.trans hlength) fun position =>
    Option.some.inj (Except.ok.inj ((hbelow position).symm.trans (h position)))
  rw [hz, heq]

/-! ### Written again -/

/-- Before anything is written below a field, a null counts as an object without fields. -/
theorem writeAll_fields {name : String} {rest : FieldPath} (hw : w.path = .field name :: rest) :
    writeAll (w :: ws) o = .ok z ↔
      ((o.getD .null).isNull = true ∨ (o.getD .null).isObject = true) ∧
        writeAll (w :: ws) (some (.object (o.getD .null).fields)) = .ok z := by
  simp only [writeAll_cons, hw, write_field_eq_ok, Option.getD_some]
  cases o.getD .null <;> simp [fieldsForWriting, isNull, isObject, fields]

/-- Before anything is written below an index, a null counts as an empty list. -/
theorem writeAll_items {position : Nat} {rest : FieldPath} (hw : w.path = .index position :: rest)
    (h : writeAll (w :: ws) o = .ok z) : ∃ items, (o.getD .null = .null ∧ items = [] ∨
      o.getD .null = .array items) ∧ writeAll (w :: ws) (some (.array items)) = .ok z := by
  obtain ⟨after, hafter, hz⟩ := writeAll_cons.mp h
  rw [hw] at hafter
  obtain ⟨items, child, hitems, hchild, rfl⟩ := write_index_eq_ok.mp hafter
  refine ⟨items, ?_, writeAll_cons.mpr ⟨_, ?_, hz⟩⟩
  · cases ho : o.getD .null <;> simp_all [itemsForWriting]
  · rw [hw]
    exact write_index_eq_ok.mpr ⟨items, child, rfl, hchild, rfl⟩

/-- Values can be laid over a place, and others written there, once more without a change. -/
def Repeats (ws : List Writing) : Prop :=
  ∀ top? o z, (∀ top ∈ top?, Ordered top) → (o.getD .null).Ordered →
    writeAll ws (laid top? o) = .ok z → writeAll ws (laid top? z) = .ok z

theorem repeats_nil : Repeats [] := by
  intro top? o z htop ho h
  obtain rfl := Except.ok.inj h
  exact congrArg Except.ok (laid_laid htop ho)

/-- What is written at the root takes the place of all that was there. -/
theorem repeats_of_root (hw : w.path = []) : Repeats (w :: ws) := by
  intro top? o z _ _ h
  rw [writeAll, hw] at h ⊢
  exact h

/-- Writings that begin with a field repeat if those below each field do. -/
theorem repeats_of_field {name : String} {rest : FieldPath} (hw : w.path = .field name :: rest)
    (hpaths : ∀ w' ∈ w :: ws, w'.path ≠ [])
    (hbelow : ∀ name, Repeats (below (.field name) (w :: ws))) : Repeats (w :: ws) := by
  intro top? o z htop ho h
  by_cases hobject : ∀ top ∈ top?, top.isObject = true
  · have htop' : ∀ top ∈ top?, top.isObject = true ∧ top.Ordered :=
      fun top hmem => ⟨hobject top hmem, htop top hmem⟩
    have hlaid (p : Option Json) (name : String) : ((laid top? p).getD .null).fields.get? name =
        laid ((top?.getD .null).field? name) ((p.getD .null).field? name) := field?_laid htop' p name
    obtain ⟨hfields, fields', rfl, hsorted, hfield⟩ :=
      writeAll_object hpaths ((writeAll_fields hw).mp h).2
    have hsorted' : fields'.Sorted := hsorted (ordered_laid htop ho).sorted
    -- The second start is an object, whether or not anything is laid over the result.
    have hagain : ((laid top? (some (.object fields'))).getD .null).isObject = true ∧
        ((laid top? (some (.object fields'))).getD .null).fields.Sorted := by
      cases top? with
      | none => exact ⟨rfl, hsorted'⟩
      | some top =>
        refine ⟨?_, sorted_overlay hsorted' (htop top rfl)⟩
        obtain ⟨source, rfl⟩ := exists_fields (hobject top rfl)
        exact isObject_overlay_object (.object fields') source
    refine (writeAll_fields hw).mpr ⟨.inr hagain.1,
      writeAll_object_eq hfields hagain.2 hsorted' fun name => ?_⟩
    have hfirst := hfield name
    rw [hlaid] at hfirst ⊢
    refine hbelow name _ _ _ (fun source hsource => ?_) (ho.getD_field? name) hfirst
    cases top? with
    | none => cases hsource
    | some top => exact (htop top rfl).field? hsource
  · -- Something that is no object hides whatever it is laid over.
    push Not at hobject
    obtain ⟨top, rfl, hnot⟩ := hobject
    rw [laid, overlay_of_not_object (by simpa using hnot)] at h ⊢
    exact h

/-- Writings that begin with an index repeat if those below each index do. -/
theorem repeats_of_index {position : Nat} {rest : FieldPath}
    (hw : w.path = .index position :: rest) (hpaths : ∀ w' ∈ w :: ws, w'.path ≠ [])
    (hbelow : ∀ position, Repeats (below (.index position) (w :: ws))) : Repeats (w :: ws) := by
  intro top? o z htop ho h
  obtain ⟨items, hstart, hwritten⟩ := writeAll_items hw h
  cases top? with
  | none =>
    have hordered (position : Nat) : (items[position]?.getD .null).Ordered := by
      cases hitem : items[position]? with
      | none => trivial
      | some item =>
        obtain ⟨-, rfl⟩ | harray := hstart
        · cases hitem
        · rw [laid] at harray
          rw [harray] at ho
          exact orderedItems_iff.mp ho item (List.mem_of_getElem? hitem)
    obtain ⟨hitems, items', rfl, hlength, hitem⟩ := writeAll_array hpaths hwritten
    obtain ⟨-, hwithin⟩ := (hlength items'.length).mp (Nat.le_refl _)
    exact writeAll_array_eq hitems rfl hwithin fun position =>
      hbelow position none (some (items[position]?.getD .null)) _ nofun (hordered position)
        (hitem position)
  | some top =>
    -- An object would have been in the way, and anything else hides what it is laid over.
    have hnot : top.isObject = false := by
      cases top with
      | object source =>
        have hobject : (((laid (some (.object source)) o).getD .null)).isObject = true :=
          isObject_overlay_object (o.getD .null) source
        obtain ⟨hnull, -⟩ | harray := hstart
        · rw [hnull] at hobject
          cases hobject
        · rw [harray] at hobject
          cases hobject
      | _ => rfl
    rw [laid, overlay_of_not_object hnot] at h ⊢
    exact h

/-- Writings that never step back repeat. The induction is on a bound for the length of their
paths. -/
theorem repeats_of_onward {n : Nat} (hlength : ∀ w ∈ ws, w.path.length ≤ n) (h : Onward ws) :
    Repeats ws := by
  induction n generalizing ws with
  | zero =>
    cases ws with
    | nil => exact repeats_nil
    | cons w rest =>
      exact repeats_of_root (List.eq_nil_of_length_eq_zero (Nat.le_zero.mp
        (hlength w List.mem_cons_self)))
  | succ n ih =>
    cases ws with
    | nil => exact repeats_nil
    | cons w rest =>
      have hbelow (segment : Segment) : Repeats (below segment (w :: rest)) :=
        ih (fun w' hw' => Nat.le_of_succ_le_succ (hlength _ (mem_below.mp hw'))) (h.below segment)
      cases hpath : w.path with
      | nil => exact repeats_of_root hpath
      | cons segment path =>
        have hpaths := h.ne_nil (by simp [hpath])
        cases segment with
        | field name => exact repeats_of_field hpath hpaths fun name => hbelow (.field name)
        | index position => exact repeats_of_index hpath hpaths fun position => hbelow (.index position)

/-- Written again over their own result, with the same laid over it once more, writings that never
step back lead to the same result. -/
theorem writeAll_again {top? : Option Json} (hws : Onward ws) (htop : ∀ top ∈ top?, top.Ordered)
    (ho : (o.getD .null).Ordered) (h : writeAll ws (laid top? o) = .ok z) :
    writeAll ws (laid top? z) = .ok z :=
  have ⟨_, hlength⟩ := exists_length_le ws
  repeats_of_onward hlength hws top? o z htop ho h

/-- Writing into an object leaves the fields alone that no writing begins with. -/
theorem writeAll_avoid {form after : Json} {names : List String} (hpaths : ∀ w ∈ ws, w.path ≠ [])
    (havoid : Avoid names ws) (hform : form.isObject = true)
    (h : writeAll ws (some form) = .ok (some after)) : after.isObject = true ∧
      (form.fields.Sorted → after.fields.Sorted) ∧
      ∀ name ∈ names, after.field? name = form.field? name := by
  obtain ⟨fields, rfl⟩ := exists_fields hform
  obtain ⟨-, written, hwritten, hsorted, hfield⟩ := writeAll_object hpaths h
  obtain rfl := Option.some.inj hwritten
  refine ⟨rfl, hsorted, fun name hname => ?_⟩
  have hsame := hfield name
  rw [havoid.below_eq_nil hname] at hsame
  exact (Except.ok.inj hsame).symm

/-- Writing into an object again, outside of some fields. Where something may be written, the same was
laid over the object and over what came of it; so the same comes of it again. -/
theorem writeAll_object_again {form form' after : Json} {names : List String}
    {tops olds : String → Option Json} (hpaths : ∀ w ∈ ws, w.path ≠ []) (hws : Onward ws)
    (havoid : Avoid names ws) (htops : ∀ name ∉ names, ∀ top ∈ tops name, top.Ordered)
    (holds : ∀ name ∉ names, ((olds name).getD .null).Ordered)
    (hform : form.isObject = true) (hform' : form'.isObject = true)
    (h : writeAll ws (some form) = .ok (some after))
    (hlaid : ∀ name ∉ names, form.field? name = laid (tops name) (olds name))
    (hlaid' : ∀ name ∉ names, form'.field? name = laid (tops name) (after.field? name)) :
    ∃ after', writeAll ws (some form') = .ok (some after') ∧
      ∀ name ∉ names, after'.field? name = after.field? name := by
  obtain ⟨fields, rfl⟩ := exists_fields hform
  obtain ⟨fields', rfl⟩ := exists_fields hform'
  obtain ⟨hfields, written, hwritten, -, hfield⟩ := writeAll_object hpaths h
  obtain rfl := Option.some.inj hwritten
  have hagain (name : String) (hname : name ∉ names) :
      writeAll (below (.field name) ws) (Dict.get? fields' name) = .ok (written.get? name) := by
    have hfirst := hfield name
    rw [show Dict.get? fields name = _ from hlaid name hname] at hfirst
    rw [show Dict.get? fields' name = _ from hlaid' name hname]
    exact writeAll_again (hws.below _) (htops name hname) (holds name hname) hfirst
  obtain ⟨z, hz⟩ := exists_writeAll_object hfields fun name => by
    by_cases hname : name ∈ names
    · exact ⟨_, by rw [havoid.below_eq_nil hname]; rfl⟩
    · exact ⟨_, hagain name hname⟩
  obtain ⟨-, written', rfl, -, hfield'⟩ := writeAll_object hpaths hz
  exact ⟨_, hz, fun name hname => Except.ok.inj ((hfield' name).symm.trans (hagain name hname))⟩

end Json

end ResourceComposition
