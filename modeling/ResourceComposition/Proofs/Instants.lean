import Mathlib.Algebra.Group.Nat.Defs
import Mathlib.Data.List.Induction
import Mathlib.Data.List.TakeWhile
import ResourceComposition.Instant

/-!
# Points in time, written and read

A point in time that is written is read as the same one, if it is one of the calendar: its parts are
within their bounds and its year is one that the calendar has. Whatever is read is such a point in
time, so times that came from a text can be written and read over and over.

Reading goes through the characters from the front. Each step of it is put against the characters
that it takes and the rest that it leaves.
-/

namespace ResourceComposition

namespace Text

/-- All characters are decimal digits. -/
def Digits (cs : List Char) : Prop := ∀ c ∈ cs, c.isDigit = true

theorem decimalValue_eq (cs : List Char) : decimalValue cs = Nat.ofDigitChars 10 cs 0 :=
  Nat.ofDigitChars_eq_foldl.symm

theorem decimalValue_snoc (cs : List Char) (c : Char) :
    decimalValue (cs ++ [c]) = 10 * decimalValue cs + digitValue c := by
  simp [decimalValue]

theorem toNat_of_isDigit {c : Char} (h : c.isDigit = true) : 48 ≤ c.toNat ∧ c.toNat ≤ 57 := by
  simp only [Char.isDigit, Bool.and_eq_true, decide_eq_true_eq, UInt32.le_iff_toNat_le] at h
  exact h

theorem decimalValue_lt {cs : List Char} (h : Digits cs) : decimalValue cs < 10 ^ cs.length := by
  induction cs using List.reverseRecOn with
  | nil => simp [decimalValue]
  | append_singleton cs c ih =>
    have hcs := ih fun c hc => h c (List.mem_append_left _ hc)
    have hc := toNat_of_isDigit (h c (by simp))
    have hvalue : digitValue c = c.toNat - 48 := rfl
    rw [decimalValue_snoc, List.length_append, List.length_singleton, Nat.pow_succ]
    omega

/-- A decimal digit is no white space. -/
theorem isBlank_of_isDigit {c : Char} (h : c.isDigit = true) : isBlank c = false := by
  have hbounds := toNat_of_isDigit h
  simp only [isBlank, CharRanges.contains, blankRanges]
  simp
  omega

/-- A text that does not begin with white space. -/
def Unblank (cs : List Char) : Prop := trimStart cs = cs

theorem unblank_cons {c : Char} (h : isBlank c = false) (rest : List Char) :
    Unblank (c :: rest) := by
  simp [Unblank, trimStart, h]

theorem unblank_digits {cs : List Char} (h : Digits cs) (hne : cs ≠ []) (rest : List Char) :
    Unblank (cs ++ rest) := by
  cases cs with
  | nil => exact absurd rfl hne
  | cons c more => exact unblank_cons (isBlank_of_isDigit (h c List.mem_cons_self)) _

end Text

namespace Instant

open Text

/-! ### Numbers of a fixed width -/

theorem length_fixedDigits (width n : Nat) : (fixedDigits width n).length = width := by
  induction width generalizing n with
  | zero => rfl
  | succ width ih => simp [fixedDigits, ih]

theorem digits_fixedDigits (width n : Nat) : Digits (fixedDigits width n) := by
  induction width generalizing n with
  | zero => exact nofun
  | succ width ih =>
    intro c hc
    obtain hc | hc := List.mem_append.mp hc
    · exact ih (n / 10) c hc
    · obtain rfl := List.mem_singleton.mp hc
      simpa using Nat.mod_lt n (by omega)

theorem decimalValue_fixedDigits (width n : Nat) :
    decimalValue (fixedDigits width n) = n % 10 ^ width := by
  induction width generalizing n with
  | zero => simp [fixedDigits, decimalValue, Nat.mod_one]
  | succ width ih =>
    have hvalue : digitValue (Nat.digitChar (n % 10)) = n % 10 :=
      Nat.toNat_digitChar_sub_48_of_lt_ten (Nat.mod_lt n (by omega))
    rw [fixedDigits, decimalValue_snoc, ih, hvalue, Nat.pow_succ, Nat.mul_comm (10 ^ width),
      Nat.mod_mul]
    omega

/-! ### Steps of reading -/

variable {rest : List Char}

/-- A text whose first character, if there is one, is no digit. -/
def Undigit (cs : List Char) : Prop := ∀ c ∈ cs.head?, c.isDigit = false

/-- A step that takes what it takes leaves the rest to the steps after it. -/
theorem run_bind_of {α β : Type} {p : Scan α} {cs : List Char} {a : α} (h : p.run cs = .ok (a, rest))
    (f : α → Scan β) : (p >>= f).run cs = (f a).run rest := by
  rw [StateT.run_bind, h]
  rfl

theorem get_run (cs : List Char) : (get : Scan (List Char)).run cs = .ok (cs, cs) := rfl

theorem set_run (cs before : List Char) : (set cs : Scan Unit).run before = .ok ((), cs) := rfl

theorem digits_run {cs : List Char} {width : Nat} (hdigits : Digits cs) (hne : cs ≠ [])
    (hwidth : cs.length ≤ width) (hrest : cs.length = width ∨ Undigit rest) :
    (digits width).run (cs ++ rest) = .ok (cs, rest) := by
  have htaken : ((cs ++ rest).take width).takeWhile Char.isDigit = cs := by
    rw [List.take_append, List.take_of_length_le hwidth,
      List.takeWhile_append_of_pos hdigits]
    obtain hfull | hrest := hrest
    · simp [hfull]
    · cases rest with
      | nil => simp
      | cons c more =>
        have hc : c.isDigit = false := hrest c rfl
        cases hleft : width - cs.length <;> simp [hc]
  have happend : cs ++ rest ≠ [] := by simp [hne]
  rw [digits, run_bind_of (get_run _)]
  simp only [if_neg happend, htaken, if_neg hne, List.drop_left]
  rfl

theorem numberUpTo_run {cs : List Char} {width bound : Nat} (hdigits : Digits cs) (hne : cs ≠ [])
    (hwidth : cs.length ≤ width) (hrest : cs.length = width ∨ Undigit rest)
    (hbound : decimalValue cs ≤ bound) :
    (numberUpTo width bound).run (cs ++ rest) = .ok (decimalValue cs, rest) := by
  rw [numberUpTo, run_bind_of (digits_run hdigits hne hwidth hrest)]
  simp [Nat.not_lt.mpr hbound]
  rfl

theorem blanks_run {cs : List Char} (h : Unblank cs) : blanks.run cs = .ok ((), cs) := by
  have : Text.trimStart cs = cs := h
  simp [blanks, this]
  rfl

theorem component_run {n low high : Nat} (hlow : low ≤ n) (hhigh : n ≤ high) (hn : n < 100) :
    (component low high).run (fixedDigits 2 n ++ rest) = .ok (n, rest) := by
  have hvalue : decimalValue (fixedDigits 2 n) = n := by
    rw [decimalValue_fixedDigits]
    omega
  have hlength := length_fixedDigits 2 n
  have hne : fixedDigits 2 n ≠ [] := by simp [fixedDigits]
  rw [component, run_bind_of (blanks_run (unblank_digits (digits_fixedDigits 2 n) hne rest)),
    run_bind_of (numberUpTo_run (digits_fixedDigits 2 n) hne (Nat.le_of_eq hlength) (.inl hlength)
      (hvalue.symm ▸ hhigh)), hvalue]
  simp [Nat.not_lt.mpr hlow]
  rfl

theorem separator_run {c : Char} (hc : isBlank c = false) (hrest : Unblank rest) :
    (separator c).run (c :: rest) = .ok ((), rest) := by
  have hliteral : (literal c).run (c :: rest) = .ok ((), rest) := by
    simp [literal]
    rfl
  rw [separator, run_bind_of (blanks_run (unblank_cons hc rest)), run_bind_of hliteral,
    blanks_run hrest]

/-! ### Points in time of the calendar -/

/-- A point in time of the calendar. -/
structure Valid (t : Instant) : Prop where
  /-- The year is one that the calendar has. -/
  calendar : minYear ≤ t.year ∧ t.year ≤ maxYear
  /-- The month is one of the year. -/
  month : 1 ≤ t.month ∧ t.month ≤ 12
  /-- The day is one of the month. -/
  day : 1 ≤ t.day ∧ t.day ≤ daysInMonth t.year t.month
  /-- The hour is one of the day. -/
  hour : t.hour ≤ 23
  /-- The minute is one of the hour. -/
  minute : t.minute ≤ 59
  /-- The second is one of the minute, which may have a leap second. -/
  second : t.second ≤ 60
  /-- The nanosecond is one of the second. -/
  nanosecond : t.nanosecond < 10 ^ 9

theorem daysInMonth_bounds (year : Int) (month : Nat) :
    28 ≤ daysInMonth year month ∧ daysInMonth year month ≤ 31 := by
  unfold daysInMonth
  split
  · split <;> omega
  · split <;> omega

/-! ### What is written is read -/

theorem decimalValue_padded (width n : Nat) :
    decimalValue (List.replicate width '0' ++ Nat.toDigits 10 n) = n := by
  rw [decimalValue_eq, Nat.ofDigitChars_append]
  simp

theorem digits_padded (width n : Nat) : Digits (List.replicate width '0' ++ Nat.toDigits 10 n) := by
  intro c hc
  obtain hc | hc := List.mem_append.mp hc
  · obtain rfl := List.eq_of_mem_replicate hc
    rfl
  · exact Nat.isDigit_of_mem_toDigits (by omega) (by omega) hc

/-- A year without a sign has four digits. -/
theorem yearNumber_run_unsigned {n : Nat} (hn : n ≤ 9999) :
    yearNumber.run (fixedDigits 4 n ++ rest) = .ok ((n : Int), rest) := by
  have hdigits := digits_fixedDigits 4 n
  have hlength := length_fixedDigits 4 n
  have hne : fixedDigits 4 n ≠ [] := by simp [fixedDigits]
  have hvalue : decimalValue (fixedDigits 4 n) = n := by
    rw [decimalValue_fixedDigits]
    omega
  have hnumber : (numberUpTo 4 9999).run (fixedDigits 4 n ++ rest) = .ok (n, rest) := by
    rw [numberUpTo_run hdigits hne (Nat.le_of_eq hlength) (.inl hlength) (hvalue.symm ▸ hn), hvalue]
  rw [yearNumber, run_bind_of (blanks_run (unblank_digits hdigits hne rest))]
  -- The first character is a digit and so no sign.
  cases hcs : fixedDigits 4 n with
  | nil => exact absurd hcs hne
  | cons c more =>
    have hc : c.isDigit = true := hdigits c (hcs ▸ List.mem_cons_self)
    rw [hcs] at hnumber
    rw [run_bind_of (get_run _)]
    split
    · next heq =>
      obtain ⟨rfl, -⟩ := List.cons.inj heq
      cases hc
    · next heq =>
      obtain ⟨rfl, -⟩ := List.cons.inj heq
      cases hc
    · rw [run_bind_of hnumber]
      rfl

theorem yearNumber_run {year : Int} (hyear : minYear ≤ year ∧ year ≤ maxYear)
    (hrest : Undigit rest) : yearNumber.run (yearChars year ++ rest) = .ok (year, rest) := by
  unfold minYear maxYear at hyear
  unfold yearChars
  split
  · next h =>
    rw [yearNumber_run_unsigned (by omega), Int.toNat_of_nonneg h.1]
  · next h =>
    set cs := List.replicate (4 - (Nat.toDigits 10 year.natAbs).length) '0' ++
      Nat.toDigits 10 year.natAbs with hcs
    have htwo : Nat.pow 2 31 = 2147483648 := rfl
    have hnumber {bound : Nat} (hbound : year.natAbs ≤ bound) :
        (numberUpTo (cs ++ rest).length bound).run (cs ++ rest) = .ok (year.natAbs, rest) := by
      have hvalue : decimalValue cs = year.natAbs := decimalValue_padded _ _
      have hne : cs ≠ [] := by simp [hcs]
      have hwidth : cs.length ≤ (cs ++ rest).length := by simp
      rw [numberUpTo_run (digits_padded _ _) hne hwidth (.inr hrest) (hvalue.symm ▸ hbound), hvalue]
    split
    · next hnegative =>
      change yearNumber.run ('-' :: (cs ++ rest)) = _
      have hblank : Unblank ('-' :: (cs ++ rest)) := unblank_cons (by decide +kernel) _
      rw [yearNumber, run_bind_of (blanks_run hblank), run_bind_of (get_run _)]
      refine (run_bind_of (set_run (cs ++ rest) _) _).trans ?_
      rw [run_bind_of (hnumber (by omega))]
      have hyear : -(year.natAbs : Int) = year := by omega
      rw [hyear]
      rfl
    · next hnegative =>
      change yearNumber.run ('+' :: (cs ++ rest)) = _
      have hblank : Unblank ('+' :: (cs ++ rest)) := unblank_cons (by decide +kernel) _
      rw [yearNumber, run_bind_of (blanks_run hblank), run_bind_of (get_run _)]
      refine (run_bind_of (set_run (cs ++ rest) _) _).trans ?_
      rw [run_bind_of (hnumber (by omega))]
      have hyear : (year.natAbs : Int) = year := by omega
      rw [hyear]
      rfl

/-- The digits of a fraction, and how many of them are written. -/
theorem fraction_run_of {width n : Nat} (hwidth : 1 ≤ width ∧ width ≤ 9) (hn : n < 10 ^ width)
    (hrest : Undigit rest) :
    fraction.run ('.' :: fixedDigits width n ++ rest) = .ok (n * 10 ^ (9 - width), rest) := by
  have hdigits := digits_fixedDigits width n
  have hlength := length_fixedDigits width n
  have hne : fixedDigits width n ≠ [] := by
    intro h
    rw [h] at hlength
    simp at hlength
    omega
  have hleft : rest.dropWhile Char.isDigit = rest := by
    cases rest with
    | nil => rfl
    | cons c more => simp [hrest c rfl]
  rw [fraction, run_bind_of (get_run _)]
  refine (run_bind_of (set_run (fixedDigits width n ++ rest) _) _).trans ?_
  rw [run_bind_of (digits_run hdigits hne (Nat.le_trans (Nat.le_of_eq hlength) hwidth.2) (.inr hrest)), hlength,
    decimalValue_fixedDigits, Nat.mod_eq_of_lt hn]
  simp [hleft]
  rfl

theorem fraction_run {n : Nat} (hn : n < 10 ^ 9) :
    fraction.run (fractionChars n ++ ['Z']) = .ok (n, ['Z']) := by
  have hrest : Undigit ['Z'] := by
    rintro c hc
    obtain rfl := Option.some.inj hc
    rfl
  unfold fractionChars
  split
  · next h =>
    subst h
    rfl
  · split
    · rw [fraction_run_of (by omega) (by omega) hrest]
      congr 2
      omega
    · split
      · rw [fraction_run_of (by omega) (by omega) hrest]
        congr 2
        omega
      · rw [fraction_run_of (by omega) hn hrest]
        simp

theorem offset_run : offset.run ['Z'] = .ok (0, []) := by
  rw [offset, run_bind_of (blanks_run (unblank_cons (by decide +kernel) [])),
    run_bind_of (get_run _)]
  rfl

theorem localTime_run {t : Instant} (h : t.Valid) :
    localTime.run (t.secondChars ++ fractionChars t.nanosecond ++ ['Z']) = .ok ((t, 0), []) := by
  have hdash : isBlank '-' = false := by decide +kernel
  have hcolon : isBlank ':' = false := by decide +kernel
  have hnext (n : Nat) (rest : List Char) : Unblank (fixedDigits 2 n ++ rest) :=
    unblank_digits (digits_fixedDigits 2 n) (by simp [fixedDigits]) rest
  have hbounds := daysInMonth_bounds t.year t.month
  have hday := h.day
  have hmonth := h.month
  have hhour := h.hour
  have hminute := h.minute
  have hsecond := h.second
  have hyear (rest : List Char) :
      yearNumber.run (yearChars t.year ++ '-' :: rest) = .ok (t.year, '-' :: rest) :=
    yearNumber_run h.calendar (by
      rintro c hc
      obtain rfl := Option.some.inj hc
      rfl)
  simp only [secondChars, List.append_assoc, List.cons_append]
  rw [localTime, run_bind_of (hyear _), run_bind_of (separator_run hdash (hnext _ _)),
    run_bind_of (component_run hmonth.1 hmonth.2 (by omega)),
    run_bind_of (separator_run hdash (hnext _ _)),
    run_bind_of (component_run hday.1 (by omega) (by omega)), run_bind_of (get_run _)]
  refine (run_bind_of (set_run _ _) _).trans ?_
  rw [run_bind_of (component_run (Nat.zero_le _) hhour (by omega)),
    run_bind_of (separator_run hcolon (hnext _ _)),
    run_bind_of (component_run (Nat.zero_le _) hminute (by omega)),
    run_bind_of (separator_run hcolon (hnext _ _)),
    run_bind_of (component_run (Nat.zero_le _) hsecond (by omega)),
    run_bind_of (fraction_run h.nanosecond), run_bind_of offset_run]
  rfl

/-- A time in UTC is the local time itself. -/
theorem toUtc_zero {t : Instant} (h : t.Valid) : t.toUtc 0 = t := by
  have hhour := h.hour
  have hminute := h.minute
  have hnonneg : ¬ ((t.hour * 60 + t.minute : Int) - 0 < 0) := by omega
  have hless : ¬ (1440 ≤ (t.hour * 60 + t.minute : Int) - 0) := by omega
  have hofDay : (((t.hour * 60 + t.minute : Int) - 0) % 1440).toNat = t.hour * 60 + t.minute := by
    omega
  have hhours : (t.hour * 60 + t.minute) / 60 = t.hour := by omega
  have hminutes : (t.hour * 60 + t.minute) % 60 = t.minute := by omega
  simp only [toUtc, if_neg hnonneg, if_neg hless, hofDay, hhours, hminutes]

/-- A point in time of the calendar is written as a text that stands for it. -/
theorem parse_render {t : Instant} (h : t.Valid) : parse t.render = .ok t := by
  have hcalendar : t.inCalendar = true := by simpa [inCalendar] using h.calendar
  have hday : ¬ daysInMonth t.year t.month < t.day := Nat.not_lt.mpr h.day.2
  simp only [parse, render, String.toList_ofList, localTime_run h, bind, Except.bind]
  simp [trimStart, hcalendar, hday, toUtc_zero h, pure, Except.pure]

/-! ### What is read is valid -/

/-- What a step after another ends in, it ends in from where the other left off. -/
theorem of_run_bind {α β : Type} {p : Scan α} {f : α → Scan β} {cs : List Char} {b : β}
    (h : (p >>= f).run cs = .ok (b, rest)) :
    ∃ a mid, p.run cs = .ok (a, mid) ∧ (f a).run mid = .ok (b, rest) := by
  rw [StateT.run_bind] at h
  cases hp : p.run cs with
  | error fault =>
    rw [hp] at h
    cases h
  | ok read =>
    rw [hp] at h
    exact ⟨read.1, read.2, rfl, h⟩

theorem digits_of_run {cs taken : List Char} {width : Nat}
    (h : (digits width).run cs = .ok (taken, rest)) : Digits taken ∧ taken.length ≤ width := by
  unfold digits at h
  obtain ⟨_, _, hget, h⟩ := of_run_bind h
  obtain ⟨rfl, rfl⟩ := Prod.mk.inj (Except.ok.inj hget)
  dsimp only at h
  split at h
  · cases h
  · split at h
    · cases h
    · obtain ⟨_, _, -, h⟩ := of_run_bind h
      obtain ⟨rfl, -⟩ := Prod.mk.inj (Except.ok.inj h)
      refine ⟨fun c hc => List.mem_takeWhile_imp hc, ?_⟩
      exact Nat.le_trans (List.takeWhile_sublist _).length_le (List.length_take_le ..)

theorem component_of_run {cs : List Char} {low high n : Nat}
    (h : (component low high).run cs = .ok (n, rest)) : low ≤ n ∧ n ≤ high := by
  unfold component at h
  obtain ⟨_, _, -, h⟩ := of_run_bind h
  obtain ⟨number, _, hnumber, h⟩ := of_run_bind h
  unfold numberUpTo at hnumber
  obtain ⟨taken, _, -, hnumber⟩ := of_run_bind hnumber
  dsimp only at h hnumber
  split at hnumber
  · cases hnumber
  · next hhigh =>
    obtain ⟨rfl, -⟩ := Prod.mk.inj (Except.ok.inj hnumber)
    split at h
    · cases h
    · next hlow =>
      obtain ⟨rfl, -⟩ := Prod.mk.inj (Except.ok.inj h)
      exact ⟨Nat.not_lt.mp hlow, Nat.not_lt.mp hhigh⟩

theorem fraction_of_run {cs : List Char} {n : Nat} (h : fraction.run cs = .ok (n, rest)) :
    n < 10 ^ 9 := by
  unfold fraction at h
  obtain ⟨_, _, -, h⟩ := of_run_bind h
  split at h
  · obtain ⟨_, _, -, h⟩ := of_run_bind h
    obtain ⟨taken, _, htaken, h⟩ := of_run_bind h
    obtain ⟨_, _, -, h⟩ := of_run_bind h
    obtain ⟨rfl, -⟩ := Prod.mk.inj (Except.ok.inj h)
    obtain ⟨hdigits, hlength⟩ := digits_of_run htaken
    -- The digits are the first of the nine.
    calc decimalValue taken * 10 ^ (9 - taken.length)
        < 10 ^ taken.length * 10 ^ (9 - taken.length) :=
          Nat.mul_lt_mul_of_pos_right (decimalValue_lt hdigits) (Nat.pow_pos (by omega))
      _ = 10 ^ 9 := by rw [← Nat.pow_add, Nat.add_sub_cancel' hlength]
  · obtain ⟨rfl, -⟩ := Prod.mk.inj (Except.ok.inj h)
    omega

/-- The parts of a local time that its time in UTC keeps are within their bounds, and so are the month
and the day. -/
structure Bounded (t : Instant) : Prop where
  /-- The month is one of the year. -/
  month : 1 ≤ t.month ∧ t.month ≤ 12
  /-- The day is not before the first. -/
  day : 1 ≤ t.day
  /-- The second is one of the minute. -/
  second : t.second ≤ 60
  /-- The nanosecond is one of the second. -/
  nanosecond : t.nanosecond < 10 ^ 9

theorem localTime_of_run {cs : List Char} {t : Instant} {minutesAhead : Int}
    (h : localTime.run cs = .ok ((t, minutesAhead), rest)) : t.Bounded := by
  unfold localTime at h
  obtain ⟨_, _, -, h⟩ := of_run_bind h
  obtain ⟨_, _, -, h⟩ := of_run_bind h
  obtain ⟨month, _, hmonth, h⟩ := of_run_bind h
  obtain ⟨_, _, -, h⟩ := of_run_bind h
  obtain ⟨day, _, hday, h⟩ := of_run_bind h
  obtain ⟨_, _, -, h⟩ := of_run_bind h
  split at h
  · cases h
  · dsimp only at h
    split at h
    · obtain ⟨_, _, -, h⟩ := of_run_bind h
      obtain ⟨_, _, -, h⟩ := of_run_bind h
      obtain ⟨_, _, -, h⟩ := of_run_bind h
      obtain ⟨_, _, -, h⟩ := of_run_bind h
      obtain ⟨_, _, -, h⟩ := of_run_bind h
      obtain ⟨second, _, hsecond, h⟩ := of_run_bind h
      obtain ⟨nanosecond, _, hnanosecond, h⟩ := of_run_bind h
      obtain ⟨_, _, -, h⟩ := of_run_bind h
      obtain ⟨hresult, -⟩ := Prod.mk.inj (Except.ok.inj h)
      obtain ⟨rfl, -⟩ := Prod.mk.inj hresult
      exact ⟨component_of_run hmonth, (component_of_run hday).1, (component_of_run hsecond).2,
        fraction_of_run hnanosecond⟩
    · cases h

/-- A date of the calendar and the parts of a time. -/
structure Dated (t : Instant) : Prop extends t.Bounded where
  /-- The day is one of the month. -/
  dayInMonth : t.day ≤ daysInMonth t.year t.month

theorem Dated.nextDay {t : Instant} (h : t.Dated) : t.nextDay.Dated := by
  have hmonth := h.month
  unfold Instant.nextDay
  split
  · next hless => exact ⟨⟨hmonth, Nat.le_add_left .., h.second, h.nanosecond⟩, hless⟩
  · split
    · have hbounds := daysInMonth_bounds t.year (t.month + 1)
      exact ⟨⟨⟨by simp, by simpa using by omega⟩, Nat.le_refl _, h.second, h.nanosecond⟩,
        by simpa using by omega⟩
    · exact ⟨⟨⟨Nat.le_refl _, by simp⟩, Nat.le_refl _, h.second, h.nanosecond⟩, by
        simp [daysInMonth]⟩

theorem Dated.previousDay {t : Instant} (h : t.Dated) : t.previousDay.Dated := by
  have hmonth := h.month
  have hday := h.dayInMonth
  unfold Instant.previousDay
  split
  · exact ⟨⟨hmonth, by simpa using by omega, h.second, h.nanosecond⟩, by simpa using by omega⟩
  · split
    · have hbounds := daysInMonth_bounds t.year (t.month - 1)
      exact ⟨⟨⟨by simpa using by omega, by simpa using by omega⟩, by simpa using by omega, h.second,
        h.nanosecond⟩, Nat.le_refl _⟩
    · exact ⟨⟨⟨by simp, Nat.le_refl _⟩, by simp, h.second, h.nanosecond⟩, by simp [daysInMonth]⟩

/-- The time in UTC has a date of the calendar, and a time of day. -/
theorem Dated.toUtc {t : Instant} (h : t.Dated) (minutesAhead : Int) :
    (t.toUtc minutesAhead).Dated ∧ (t.toUtc minutesAhead).hour ≤ 23 ∧
      (t.toUtc minutesAhead).minute ≤ 59 := by
  have hday (s : Instant) (hs : s.Dated) (hour minute : Nat) :
      ({ s with hour, minute } : Instant).Dated :=
    ⟨⟨hs.month, hs.day, hs.second, hs.nanosecond⟩, hs.dayInMonth⟩
  unfold Instant.toUtc
  refine ⟨hday _ ?_ _ _, by simpa using by omega, by simpa using by omega⟩
  split
  · exact h.previousDay
  · split
    · exact h.nextDay
    · exact h

/-- A text stands for a point in time of the calendar, if for any. -/
theorem parse_valid {text : String} {t : Instant} (h : parse text = .ok t) : t.Valid := by
  unfold parse at h
  cases hlocal : localTime.run text.toList with
  | error fault =>
    rw [hlocal] at h
    cases h
  | ok read =>
    obtain ⟨⟨s, minutesAhead⟩, rest⟩ := read
    have hbounded := localTime_of_run hlocal
    rw [hlocal] at h
    simp only [bind, Except.bind] at h
    split at h
    · cases h
    · split at h
      · cases h
      · next hdate =>
        split at h
        · cases h
        · next hcalendar =>
          obtain rfl := Except.ok.inj h
          simp only [Bool.not_eq_true', not_or] at hdate
          have hs : s.Dated := ⟨hbounded, Nat.not_lt.mp hdate.2.1⟩
          obtain ⟨hutc, hhour, hminute⟩ := hs.toUtc minutesAhead
          have hyear : minYear ≤ (s.toUtc minutesAhead).year ∧
              (s.toUtc minutesAhead).year ≤ maxYear := by
            simpa [inCalendar] using hcalendar
          exact ⟨hyear, hutc.month, ⟨hutc.day, hutc.dayInMonth⟩, hhour, hminute, hutc.second,
            hutc.nanosecond⟩

end Instant

end ResourceComposition
