import ResourceComposition.Proofs.Grammar
import ResourceComposition.Proofs.Instants

/-!
# Field paths, written and read

A path has a canonical text: an index stands in brackets, and so does a field whose name holds a dot
or an opening bracket; any other field stands bare, after a dot unless it comes first.

A path can be named by a text if its indexes fit 64 bits and its fields have names without closing
brackets. The canonical text of such a path is read as that path, and all paths that are read are
such paths (`nameable_round_trip`). No two segments are taken for each other: a numeral in brackets
holds no separator, and a bare field of digits is a field.
-/

namespace ResourceComposition

namespace Text

theorem digits_toDigits (n : Nat) : Digits (Nat.toDigits 10 n) := fun _ hc =>
  Nat.isDigit_of_mem_toDigits (by omega) (by omega) hc

/-- The digits of a number are its numeral. -/
theorem uint64?_toDigits {n : Nat} (hn : n ≤ maxUInt64) : uint64? (Nat.toDigits 10 n) = some n := by
  have hdigits := digits_toDigits n
  have hvalue : decimalValue (Nat.toDigits 10 n) = n := by simp [decimalValue_eq]
  have hunsigned : unsignedDigits (Nat.toDigits 10 n) = Nat.toDigits 10 n := by
    unfold unsignedDigits
    split
    · next rest heq => exact absurd (hdigits '+' (by simp [heq])) (by decide)
    · rfl
  have hne : Nat.toDigits 10 n ≠ [] := Nat.toDigits_ne_nil
  simp only [uint64?, hunsigned, hvalue]
  exact if_pos ⟨hne, List.all_eq_true.mpr hdigits, hn⟩

/-- A text with a character that is neither a digit nor a plus sign is no numeral. -/
theorem uint64?_eq_none {cs : List Char} {c : Char} (hc : c ∈ cs) (hplus : c ≠ '+')
    (hdigit : c.isDigit = false) : uint64? cs = none := by
  have hmem : c ∈ unsignedDigits cs := by
    unfold unsignedDigits
    split
    · exact (List.mem_cons.mp hc).resolve_left hplus
    · exact hc
  refine if_neg fun h => ?_
  have := List.all_eq_true.mp h.2.1 c hmem
  simp [hdigit] at this

theorem uint64?_le {cs : List Char} {n : Nat} (h : uint64? cs = some n) : n ≤ maxUInt64 := by
  simp only [uint64?, Option.ite_none_right_eq_some, Option.some.injEq] at h
  exact h.2 ▸ h.1.2.2

end Text

namespace Segment

/-- The numeral of an index, or the name of a field. -/
def contents : Segment → List Char
  | .index position => Nat.toDigits 10 position
  | .field name => name.toList

/-- Whether a segment is written in brackets: an index, and a field whose name holds a separator. -/
def Bracketed : Segment → Prop
  | .index _ => True
  | .field name => '.' ∈ name.toList ∨ '[' ∈ name.toList

instance : DecidablePred Bracketed
  | .index _ => isTrue trivial
  | .field name => inferInstanceAs (Decidable ('.' ∈ name.toList ∨ '[' ∈ name.toList))

/-- The text of a segment that comes first in a path. -/
def chars (s : Segment) : List Char :=
  if s.Bracketed then '[' :: (s.contents ++ [']']) else s.contents

/-- The text of a segment that comes after others. -/
def laterChars (s : Segment) : List Char := if s.Bracketed then s.chars else '.' :: s.chars

/-- A segment that a text can name. -/
def Nameable : Segment → Prop
  | .index position => position ≤ Text.maxUInt64
  | .field name => name ≠ "" ∧ ']' ∉ name.toList

instance : DecidablePred Nameable
  | .index position => inferInstanceAs (Decidable (position ≤ Text.maxUInt64))
  | .field name => inferInstanceAs (Decidable (name ≠ "" ∧ ']' ∉ name.toList))

end Segment

namespace FieldPath

/-- The canonical text of a path. -/
def render : FieldPath → String
  | [] => ""
  | first :: others => String.ofList (first.chars ++ others.flatMap Segment.laterChars)

/-- A path that a text can name. -/
def Nameable (path : FieldPath) : Prop := path ≠ [] ∧ ∀ segment ∈ path, segment.Nameable

instance (path : FieldPath) : Decidable path.Nameable := inferInstanceAs (Decidable (_ ∧ _))

variable {cs : List Char} {segment : Segment} {path : FieldPath}

/-! ### Canonical texts -/

/-- Brackets around the contents of a segment stand for the segment, if it is written so. -/
theorem bracketSegment_contents (hname : segment.Nameable) (h : segment.Bracketed) :
    bracketSegment segment.contents = segment := by
  cases segment with
  | index position => rw [bracketSegment, Segment.contents, Text.uint64?_toDigits hname]
  | field name =>
    have hnone : Text.uint64? name.toList = none := by
      obtain hdot | hopen := h
      · exact Text.uint64?_eq_none hdot (by decide) (by decide)
      · exact Text.uint64?_eq_none hopen (by decide) (by decide)
    rw [bracketSegment, Segment.contents, hnone, String.ofList_toList]

theorem inner_contents (hname : segment.Nameable) : Inner segment.contents := by
  cases segment with
  | index position =>
    refine ⟨Nat.toDigits_ne_nil, fun hmem => ?_⟩
    exact absurd (Text.digits_toDigits position ']' hmem) (by decide)
  | field name => exact ⟨by simpa [Segment.contents] using hname.1, hname.2⟩

theorem component_chars (hname : segment.Nameable) : Component segment.chars segment := by
  unfold Segment.chars
  split
  · next h =>
    have hcomponent := Component.bracket (inner_contents hname)
    rwa [bracketSegment_contents hname h] at hcomponent
  · next h =>
    cases segment with
    | index position => exact absurd trivial h
    | field name =>
      obtain ⟨hdot, hopen⟩ := not_or.mp h
      have hbare : Bare name.toList := by
        refine ⟨(inner_contents hname).1, fun c hc => ⟨?_, ?_, ?_⟩⟩ <;> rintro rfl
        · exact hdot hc
        · exact hopen hc
        · exact hname.2 hc
      have hcomponent := Component.bare hbare
      rwa [String.ofList_toList] at hcomponent

theorem continues_laterChars (h : ∀ segment ∈ path, segment.Nameable) :
    Continues (path.flatMap Segment.laterChars) path := by
  induction path with
  | nil => exact .done
  | cons segment rest ih =>
    obtain ⟨hname, hrest⟩ := List.forall_mem_cons.mp h
    have hfirst := component_chars hname
    rw [List.flatMap_cons, Segment.laterChars]
    split
    · next hbracketed =>
      have hcontinues := Continues.bracket (inner_contents hname) (ih hrest)
      rw [bracketSegment_contents hname hbracketed] at hcontinues
      simpa [Segment.chars, hbracketed] using hcontinues
    · exact .dotted hfirst (ih hrest)

/-- The canonical text of a path that can be named is read as the path. -/
theorem parse_render (h : path.Nameable) : parse path.render = .ok path := by
  cases path with
  | nil => exact absurd rfl h.1
  | cons segment rest =>
    obtain ⟨hname, hrest⟩ := List.forall_mem_cons.mp h.2
    have hspells : Spells (segment.chars ++ rest.flatMap Segment.laterChars) (segment :: rest) :=
      .intro (component_chars hname) (continues_laterChars hrest)
    rwa [parse_eq_ok, render, String.toList_ofList]

/-! ### Paths that are read -/

theorem Component.nameable (h : Component cs segment) : segment.Nameable := by
  cases h with
  | bare hname =>
    refine ⟨by simpa using hname.1, fun hmem => ?_⟩
    exact (hname.2 ']' (by simpa using hmem)).2.2 rfl
  | @bracket inner hinner =>
    unfold bracketSegment
    split
    · next position heq => exact Text.uint64?_le heq
    · exact ⟨by simpa using hinner.1, by simpa using hinner.2⟩

theorem Continues.nameable (h : Continues cs path) : ∀ segment ∈ path, segment.Nameable := by
  induction h with
  | done => exact nofun
  | dotted hfirst _ ih => exact List.forall_mem_cons.mpr ⟨hfirst.nameable, ih⟩
  | bracket hinner _ ih => exact List.forall_mem_cons.mpr ⟨(Component.bracket hinner).nameable, ih⟩

theorem Spells.nameable (h : Spells cs path) : path.Nameable := by
  cases h with
  | intro hfirst hrest =>
    exact ⟨List.cons_ne_nil _ _, List.forall_mem_cons.mpr ⟨hfirst.nameable, hrest.nameable⟩⟩

/-- Whatever is read can be named. -/
theorem nameable_of_parse {text : String} (h : parse text = .ok path) : path.Nameable :=
  (parse_eq_ok.mp h).nameable

/-- The canonical text of a path that can be named is read as the path; and whatever path is read can
be named, so it is read from its canonical text again. -/
theorem nameable_round_trip (path : FieldPath) :
    (path.Nameable → parse path.render = .ok path) ∧
      ∀ text, parse text = .ok path → path.Nameable ∧ parse path.render = .ok path :=
  ⟨parse_render, fun _ h => ⟨nameable_of_parse h, parse_render (nameable_of_parse h)⟩⟩

/-- A field with a separator, an index, a field of digits and the greatest index. Written in another
way, they are read as the same. -/
theorem digits_round_trip :
    let path : FieldPath := [.field "a.b", .index 0, .field "0", .index 18446744073709551615]
    path.Nameable ∧ path.render = "[a.b][0].0[18446744073709551615]" ∧
      parse path.render = .ok path ∧ parse "[a.b].[+0].0[18446744073709551615]" = .ok path := by
  intro path
  have hname : path.Nameable := by decide
  exact ⟨hname, by decide, (nameable_round_trip path).1 hname, rfl⟩

end FieldPath

end ResourceComposition
