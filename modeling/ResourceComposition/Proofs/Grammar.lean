import Mathlib.Computability.Language
import ResourceComposition.Error

/-!
# The grammar of field paths

The text of a field path is a first component and any number of further ones. A component is a bare
field, or brackets around an index or a field. A dot comes before every further bare field, and may
come before further brackets. `FieldPath.pathTexts` is the language of these texts.

Reading goes through the characters one by one, and keeps what it has collected. What it collects is
put against the grammar with segments (`Spells`): a text is read as a path exactly if it spells that
path (`parse_eq_ok`). So the texts that are read are those of the language, and any other text
is an error (`parse_accepts`).
-/

namespace ResourceComposition.FieldPath

open scoped Computability

/-! ### Texts of paths -/

/-- A character that can stand in a bare field. -/
def Plain (c : Char) : Prop := c ≠ '.' ∧ c ≠ '[' ∧ c ≠ ']'

/-- One or more characters that can stand in a bare field. -/
def Bare (cs : List Char) : Prop := cs ≠ [] ∧ ∀ c ∈ cs, Plain c

/-- One or more characters that can stand inside brackets. -/
def Inner (cs : List Char) : Prop := cs ≠ [] ∧ ']' ∉ cs

/-- The texts of bare fields. -/
def bareTexts : Language Char := {cs | Bare cs}

/-- The texts of brackets with something inside. -/
def bracketTexts : Language Char := {cs | ∃ inner, Inner inner ∧ cs = '[' :: (inner ++ [']'])}

/-- The text of the separator. -/
def dot : Language Char := {['.']}

/-- The texts of components that come after others. -/
def furtherTexts : Language Char := dot * bareTexts + bracketTexts + dot * bracketTexts

/-- The texts of paths. -/
def pathTexts : Language Char := (bareTexts + bracketTexts) * furtherTexts∗

/-! ### What texts spell -/

/-- The text of a component, and its segment. -/
inductive Component : List Char → Segment → Prop where
  /-- A bare field. -/
  | bare {name : List Char} (hname : Bare name) : Component name (.field (String.ofList name))
  /-- Brackets. -/
  | bracket {inner : List Char} (hinner : Inner inner) :
      Component ('[' :: (inner ++ [']'])) (bracketSegment inner)

/-- The text after a component, and the segments that it adds to the path. -/
inductive Continues : List Char → FieldPath → Prop where
  /-- The text is at its end. -/
  | done : Continues [] []
  /-- A dot and a component. -/
  | dotted {cs rest : List Char} {segment : Segment} {path : FieldPath}
      (hfirst : Component cs segment) (hrest : Continues rest path) :
      Continues ('.' :: (cs ++ rest)) (segment :: path)
  /-- Brackets without a dot. -/
  | bracket {inner rest : List Char} {path : FieldPath} (hinner : Inner inner)
      (hrest : Continues rest path) :
      Continues ('[' :: (inner ++ ']' :: rest)) (bracketSegment inner :: path)

/-- A text and the path that it spells. -/
inductive Spells : List Char → FieldPath → Prop where
  /-- A component and the text after it. -/
  | intro {cs rest : List Char} {segment : Segment} {path : FieldPath}
      (hfirst : Component cs segment) (hrest : Continues rest path) :
      Spells (cs ++ rest) (segment :: path)

variable {cs rest field inner : List Char} {c : Char} {closed : Bool} {segment : Segment}
  {path others : FieldPath}

theorem Component.ne_nil (h : Component cs segment) : cs ≠ [] := by
  cases h with
  | bare hname => exact hname.1
  | bracket => exact List.cons_ne_nil _ _

theorem Spells.ne_nil (h : Spells cs path) : cs ≠ [] ∧ path ≠ [] := by
  cases h with
  | intro hfirst => exact ⟨by simp [hfirst.ne_nil], List.cons_ne_nil _ _⟩

theorem Spells.dotted (h : Spells cs path) : Continues ('.' :: cs) path := by
  cases h with
  | intro hfirst hrest => exact .dotted hfirst hrest

/-! ### What is spelled is read -/

theorem parseBare_append {more : List Char} (hmore : ∀ c ∈ more, Plain c) (field rest : List Char) :
    parseBare field false (more ++ rest) = parseBare (field ++ more) false rest := by
  induction more generalizing field with
  | nil => simp
  | cons c more ih =>
    obtain ⟨⟨hdot, hopen, hclose⟩, hmore⟩ := List.forall_mem_cons.mp hmore
    rw [List.cons_append, parseBare, if_neg hdot, if_neg hopen, if_neg hclose,
      if_neg Bool.false_ne_true, ih hmore, List.append_assoc, List.singleton_append]

theorem parseBracket_append {more : List Char} (hmore : ']' ∉ more) (inner rest : List Char) :
    parseBracket inner (more ++ rest) = parseBracket (inner ++ more) rest := by
  induction more generalizing inner with
  | nil => simp
  | cons c more ih =>
    obtain ⟨hc, hmore⟩ := not_or.mp (mt List.mem_cons.mpr hmore)
    rw [List.cons_append, parseBracket, if_neg (Ne.symm hc), ih hmore, List.append_assoc,
      List.singleton_append]

theorem parseBracket_inner (hinner : Inner inner) (rest : List Char) :
    parseBracket [] (inner ++ ']' :: rest) =
      (parseBare [] true rest).map (bracketSegment inner :: ·) := by
  rw [parseBracket_append hinner.2, List.nil_append, parseBracket, if_pos rfl, if_neg hinner.1]

/-- A component is read if the text after it is. -/
theorem Component.parseBare_append (h : Component cs segment)
    (hrest : ∀ field closed, (field = [] → closed = true) →
      parseBare field closed rest = .ok (bareSegment field ++ path)) :
    parseBare [] false (cs ++ rest) = .ok (segment :: path) := by
  cases h with
  | bare hname =>
    rw [FieldPath.parseBare_append hname.2, List.nil_append, hrest _ _ fun h => absurd h hname.1,
      bareSegment, if_neg hname.1, List.singleton_append]
  | bracket hinner =>
    rw [List.cons_append, List.append_assoc, List.singleton_append, parseBare,
      if_neg (by decide), if_pos rfl, parseBracket_inner hinner, hrest _ _ fun _ => rfl]
    rfl

/-- After a component, the text is read as the segments that it adds. -/
theorem Continues.parseBare_eq (h : Continues cs path) (field : List Char) (closed : Bool)
    (hstate : field = [] → closed = true) :
    parseBare field closed cs = .ok (bareSegment field ++ path) := by
  induction h generalizing field closed with
  | done => rw [parseBare, List.append_nil]
  | @dotted cs rest segment path hfirst _ ih =>
    have hdot : ¬ (field = [] ∧ (!closed) = true) := fun h => by simp [hstate h.1] at h
    have hne : cs ++ rest ≠ [] := by simp [hfirst.ne_nil]
    rw [parseBare, if_pos rfl, if_neg hdot, if_neg hne, hfirst.parseBare_append ih]
    rfl
  | bracket hinner _ ih =>
    rw [parseBare, if_neg (by decide), if_pos rfl, parseBracket_inner hinner, ih _ _ fun _ => rfl]
    rfl

theorem Spells.parseBare_eq (h : Spells cs path) : parseBare [] false cs = .ok path := by
  cases h with
  | intro hfirst hrest => exact hfirst.parseBare_append hrest.parseBare_eq

/-! ### What is read is spelled -/

/-- How reading outside brackets goes on after a character, if it succeeds. -/
theorem of_parseBare_cons (h : parseBare field closed (c :: rest) = .ok path) :
    (c = '.' ∧ (field = [] → closed = true) ∧ rest ≠ [] ∧
      ∃ others, parseBare [] false rest = .ok others ∧ path = bareSegment field ++ others) ∨
    (c = '[' ∧ ∃ others, parseBracket [] rest = .ok others ∧ path = bareSegment field ++ others) ∨
    (Plain c ∧ closed = false ∧ parseBare (field ++ [c]) false rest = .ok path) := by
  have hmap {result : Except Fault FieldPath}
      (h : result.map (bareSegment field ++ ·) = .ok path) :
      ∃ others, result = .ok others ∧ path = bareSegment field ++ others := by
    cases result with
    | error fault => cases h
    | ok others => exact ⟨others, rfl, (Except.ok.inj h).symm⟩
  rw [parseBare] at h
  split at h
  · next hdot =>
    split at h
    · cases h
    · next hstate =>
      split at h
      · cases h
      · next hne => exact .inl ⟨hdot, fun hfield => by simpa [hfield] using hstate, hne, hmap h⟩
  · next hdot =>
    split at h
    · next hopen => exact .inr (.inl ⟨hopen, hmap h⟩)
    · next hopen =>
      split at h
      · cases h
      · next hclose =>
        split at h
        · cases h
        · next hclosed => exact .inr (.inr ⟨⟨hdot, hopen, hclose⟩, by simpa using hclosed, h⟩)

/-- What is left of a text inside brackets, of which some was collected, closes the brackets and goes
on after them. -/
def Closes (inner cs : List Char) (path : FieldPath) : Prop :=
  ∃ full rest others, inner ++ cs = full ++ ']' :: rest ∧ Inner full ∧ Continues rest others ∧
    path = bracketSegment full :: others

theorem Closes.continues (h : Closes [] cs path) : Continues ('[' :: cs) path := by
  obtain ⟨full, rest, others, rfl, hfull, hrest, rfl⟩ := h
  exact .bracket hfull hrest

theorem Closes.spells (h : Closes [] cs path) : Spells ('[' :: cs) path := by
  obtain ⟨full, rest, others, rfl, hfull, hrest, rfl⟩ := h
  simpa using Spells.intro (.bracket hfull) hrest

/-- What is read from a text in each of the states of reading: in a bare field, after brackets, and
inside them. -/
structure ReadsSpelled (cs : List Char) : Prop where
  /-- Some of a bare field was collected, or nothing since a separator. -/
  bare : ∀ field path, (∀ c ∈ field, Plain c) → field ++ cs ≠ [] →
    parseBare field false cs = .ok path → Spells (field ++ cs) path
  /-- Brackets were closed. -/
  closed : ∀ path, parseBare [] true cs = .ok path → Continues cs path
  /-- Some of the contents of brackets was collected. -/
  bracket : ∀ inner path, ']' ∉ inner → parseBracket inner cs = .ok path → Closes inner cs path

theorem readsSpelled_nil : ReadsSpelled [] where
  bare field path hfield hne h := by
    rw [List.append_nil] at hne
    rw [parseBare, bareSegment, if_neg hne] at h
    obtain rfl := Except.ok.inj h
    exact .intro (.bare ⟨hne, hfield⟩) .done
  closed path h := by
    obtain rfl := Except.ok.inj h
    exact .done
  bracket inner path _ h := by
    rw [parseBracket] at h
    cases h

theorem ReadsSpelled.cons (ih : ReadsSpelled rest) (c : Char) : ReadsSpelled (c :: rest) where
  bare field path hfield _ h := by
    obtain ⟨rfl, hstate, hne, others, hothers, rfl⟩ | ⟨rfl, others, hothers, rfl⟩ | ⟨hc, -, h⟩ :=
      of_parseBare_cons h
    · have hfield' : field ≠ [] := fun h => Bool.false_ne_true (hstate h)
      have hrest : Spells rest others := ih.bare [] others nofun hne hothers
      simpa [bareSegment, hfield'] using Spells.intro (.bare ⟨hfield', hfield⟩) hrest.dotted
    · have hrest : Closes [] rest others := ih.bracket [] others nofun hothers
      by_cases hfield' : field = []
      · simpa [bareSegment, hfield'] using hrest.spells
      · simpa [bareSegment, hfield'] using Spells.intro (.bare ⟨hfield', hfield⟩) hrest.continues
    · have hfield' : ∀ d ∈ field ++ [c], Plain d := by
        simpa [or_imp, forall_and] using And.intro hfield hc
      simpa using ih.bare (field ++ [c]) path hfield' (by simp) h
  closed path h := by
    obtain ⟨rfl, -, hne, others, hothers, hpath⟩ | ⟨rfl, others, hothers, hpath⟩ | ⟨-, habsurd, -⟩ :=
      of_parseBare_cons h
    · exact hpath ▸ (ih.bare [] others nofun hne hothers).dotted
    · exact hpath ▸ (ih.bracket [] others nofun hothers).continues
    · cases habsurd
  bracket inner path hinner h := by
    rw [parseBracket] at h
    split at h
    · next hc =>
      split at h
      · cases h
      · next hne =>
        cases hothers : parseBare [] true rest with
        | error fault => simp [hothers, Except.map] at h
        | ok others =>
          rw [hothers] at h
          exact ⟨inner, rest, others, by rw [hc], ⟨hne, hinner⟩, ih.closed others hothers,
            (Except.ok.inj h).symm⟩
    · next hc =>
      obtain ⟨full, rest, others, hfull, hrest⟩ :=
        ih.bracket (inner ++ [c]) path (by simp [hinner, Ne.symm hc]) h
      exact ⟨full, rest, others, by simpa using hfull, hrest⟩

/-- A text is read as a path exactly if it spells the path. -/
theorem parseChars_eq_ok : parseChars cs = .ok path ↔ Spells cs path := by
  have hreads : ReadsSpelled cs := by
    induction cs with
    | nil => exact readsSpelled_nil
    | cons c rest ih => exact ih.cons c
  rw [parseChars]
  constructor
  · intro h
    split at h
    · cases h
    · next hne => exact hreads.bare [] path nofun hne h
  · intro h
    rw [if_neg h.ne_nil.1, h.parseBare_eq]

theorem parse_eq_ok {text : String} : parse text = .ok path ↔ Spells text.toList path := by
  rw [← parseChars_eq_ok, parse]
  cases parseChars text.toList <;> simp

/-- No text stands for the path without segments. -/
theorem parse_ne_nil (text : String) : parse text ≠ .ok [] := fun h => (parse_eq_ok.mp h).ne_nil.2 rfl

/-! ### The language of all texts that are read -/

theorem exists_component : (∃ segment, Component cs segment) ↔ cs ∈ bareTexts + bracketTexts := by
  rw [Language.mem_add]
  constructor
  · rintro ⟨_, ⟨hname⟩ | ⟨hinner⟩⟩
    · exact .inl hname
    · exact .inr ⟨_, hinner, rfl⟩
  · rintro (hname | ⟨inner, hinner, rfl⟩)
    · exact ⟨_, .bare hname⟩
    · exact ⟨_, .bracket hinner⟩

theorem mem_furtherTexts : cs ∈ furtherTexts ↔
    (∃ first ∈ bareTexts + bracketTexts, cs = '.' :: first) ∨ cs ∈ bracketTexts := by
  rw [furtherTexts, add_right_comm, ← mul_add, Language.mem_add, Language.mem_mul]
  refine or_congr_left ⟨?_, ?_⟩
  · rintro ⟨_, rfl, first, hfirst, rfl⟩
    exact ⟨first, hfirst, rfl⟩
  · rintro ⟨first, hfirst, rfl⟩
    exact ⟨['.'], rfl, first, hfirst, rfl⟩

/-- The texts that can come after a component. -/
def laterTexts : Language Char := {cs | ∃ path, Continues cs path}

/-- The texts after a component are those of further components, over and over: they solve an
equation that has no other solution. -/
theorem laterTexts_eq : laterTexts = furtherTexts∗ := by
  have hnil : [] ∉ furtherTexts := by
    rw [mem_furtherTexts]
    rintro (⟨first, -, habsurd⟩ | ⟨inner, -, habsurd⟩) <;> cases habsurd
  have hfixed : laterTexts = furtherTexts * laterTexts + 1 := by
    ext cs
    rw [Language.mem_add, Language.mem_mul, Language.mem_one]
    constructor
    · rintro ⟨_, _ | ⟨hfirst, hrest⟩ | ⟨hinner, hrest⟩⟩
      · exact .inr rfl
      · exact .inl ⟨_, mem_furtherTexts.mpr (.inl ⟨_, exists_component.mp ⟨_, hfirst⟩, rfl⟩), _,
          ⟨_, hrest⟩, rfl⟩
      · exact .inl ⟨_, mem_furtherTexts.mpr (.inr ⟨_, hinner, rfl⟩), _, ⟨_, hrest⟩, by simp⟩
    · rintro (⟨further, hfurther, rest, ⟨path, hrest⟩, rfl⟩ | rfl)
      · obtain ⟨first, hfirst, rfl⟩ | ⟨inner, hinner, rfl⟩ := mem_furtherTexts.mp hfurther
        · obtain ⟨segment, hfirst⟩ := exists_component.mpr hfirst
          exact ⟨_, .dotted hfirst hrest⟩
        · exact ⟨_, by simpa using Continues.bracket hinner hrest⟩
      · exact ⟨[], .done⟩
  rwa [Language.self_eq_mul_add_iff hnil, mul_one] at hfixed

theorem exists_spells : (∃ path, Spells cs path) ↔ cs ∈ pathTexts := by
  rw [pathTexts, ← laterTexts_eq, Language.mem_mul]
  constructor
  · rintro ⟨_, ⟨hfirst, hrest⟩⟩
    exact ⟨_, exists_component.mp ⟨_, hfirst⟩, _, ⟨_, hrest⟩, rfl⟩
  · rintro ⟨first, hfirst, rest, hrest, rfl⟩
    obtain ⟨segment, hfirst⟩ := exists_component.mpr hfirst
    obtain ⟨path, hrest⟩ := hrest
    exact ⟨_, .intro hfirst hrest⟩

/-- The texts that are read as paths are those of the language, and every other text is an error. -/
theorem parse_accepts (text : String) :
    ((∃ path, parse text = .ok path) ↔ text.toList ∈ pathTexts) ∧
      ((∃ fault, parse text = .error ⟨text, fault⟩) ↔ text.toList ∉ pathTexts) := by
  have hread : (∃ path, parse text = .ok path) ↔ text.toList ∈ pathTexts :=
    (exists_congr fun _ => parse_eq_ok).trans exists_spells
  refine ⟨hread, ?_⟩
  rw [← hread, parse]
  cases parseChars text.toList with
  | error fault => exact ⟨fun _ => nofun, fun _ => ⟨fault, rfl⟩⟩
  | ok path => exact ⟨nofun, fun h => absurd ⟨path, rfl⟩ h⟩

/-- Nothing, a dot without a component before or after it, brackets that are empty or not closed, a
closing bracket alone, and a bare field right after brackets. -/
example : ["", ".spec", "spec..name", "spec.", "spec[0", "spec[]", "spec]", "spec[0]x"].all
    (fun text => (parse text).toOption.isNone) = true := by decide

end ResourceComposition.FieldPath
