import ResourceComposition.Text.Blank
import ResourceComposition.Text.Numeral

/-!
# Points in time

A point in time is kept as its calendar date and time of day in UTC, to the nanosecond. The
second is 60 in a leap second.

Times are read in a relaxed form of RFC 3339: numbers may be shorter than their width, blanks may
stand between the parts, a blank may take the place of the `T`, a year outside the usual four
digits carries a sign, and the offset may be `UTC` or lack its colon. They are written in the strict
form, in UTC, with as many groups of three digits after the point as the nanoseconds need.
-/

namespace ResourceComposition

/-- A point in time, by the calendar of UTC. -/
structure Instant where
  /-- The year; the year before year one is zero. -/
  year : Int
  /-- The month, from one on. -/
  month : Nat
  /-- The day of the month, from one on. -/
  day : Nat
  /-- The hour. -/
  hour : Nat
  /-- The minute. -/
  minute : Nat
  /-- The second; 60 in a leap second. -/
  second : Nat
  /-- The part of the second that is over. -/
  nanosecond : Nat
  deriving DecidableEq

namespace Instant

/-- Why a text is no point in time. -/
inductive Fault where
  /-- The text ends too early. -/
  | ended
  /-- A character that may not stand where it stands. -/
  | invalid
  /-- A number too great for its place, or a date that is not in the calendar. -/
  | outOfRange
  /-- A local time that no time of the calendar in UTC goes with. -/
  | impossible
  /-- Something after the time. -/
  | trailing
  deriving DecidableEq

/-- The wording of a fault. -/
def Fault.message : Fault → String
  | .ended => "premature end of input"
  | .invalid => "input contains invalid characters"
  | .outOfRange => "input is out of range"
  | .impossible => "no possible date and time matching input"
  | .trailing => "trailing input"

/-! ### The calendar -/

/-- Whether a year has a leap day. -/
def isLeapYear (year : Int) : Bool := year % 4 = 0 ∧ (year % 100 ≠ 0 ∨ year % 400 = 0)

/-- The number of days of a month. -/
def daysInMonth (year : Int) (month : Nat) : Nat :=
  if month = 2 then if isLeapYear year then 29 else 28
  else if month = 4 ∨ month = 6 ∨ month = 9 ∨ month = 11 then 30
  else 31

/-- The same time a day later. -/
def nextDay (t : Instant) : Instant :=
  if t.day < daysInMonth t.year t.month then { t with day := t.day + 1 }
  else if t.month < 12 then { t with month := t.month + 1, day := 1 }
  else { t with year := t.year + 1, month := 1, day := 1 }

/-- The same time a day earlier. -/
def previousDay (t : Instant) : Instant :=
  if 1 < t.day then { t with day := t.day - 1 }
  else if 1 < t.month then
    { t with month := t.month - 1, day := daysInMonth t.year (t.month - 1) }
  else { t with year := t.year - 1, month := 12, day := 31 }

/-- The time in UTC of a local time that is ahead of UTC by less than a day. -/
def toUtc (t : Instant) (minutesAhead : Int) : Instant :=
  let minutes : Int := t.hour * 60 + t.minute - minutesAhead
  let onDay := if minutes < 0 then t.previousDay else if 1440 ≤ minutes then t.nextDay else t
  let ofDay := (minutes % 1440).toNat
  { onDay with hour := ofDay / 60, minute := ofDay % 60 }

/-- The days from the first day of 1970 to the first day of a month. -/
def daysToMonth (year : Int) (month : Nat) : Int :=
  let before := year - 1
  let ofYears := 365 * (year - 1970) + (before / 4 - before / 100 + before / 400 - 477)
  (List.range (month - 1)).foldl (fun days m => days + daysInMonth year (m + 1)) ofYears

/-- The nanoseconds since the year 1970 began. -/
def sinceEpoch (t : Instant) : Int :=
  let days := daysToMonth t.year t.month + t.day - 1
  ((days * 24 + t.hour) * 60 + t.minute) * 60000000000 + t.second * 1000000000 + t.nanosecond

/-- The time cut to whole seconds. -/
def wholeSecond (t : Instant) : Instant := { t with nanosecond := 0 }

/-! ### Reading -/

/-- Reading steps: each takes characters off the front of the text. -/
abbrev Scan (α : Type) : Type := StateT (List Char) (Except Fault) α

/-- Skip blanks. -/
def blanks : Scan Unit := modify Text.trimStart

/-- Take one given character. -/
def literal (c : Char) : Scan Unit := do
  match ← get with
  | [] => throw .ended
  | x :: rest => if x = c then set rest else throw .invalid

/-- Take the digits of a number, at least one and at most `width`. -/
def digits (width : Nat) : Scan (List Char) := do
  let cs ← get
  if cs = [] then throw .ended
  let taken := (cs.take width).takeWhile Char.isDigit
  if taken = [] then throw .invalid
  set (cs.drop taken.length)
  return taken

/-- Take a number, which must not be greater than the bound. -/
def numberUpTo (width bound : Nat) : Scan Nat := do
  let n := Text.decimalValue (← digits width)
  if bound < n then throw .outOfRange
  return n

/-- Take a number between two bounds, blanks before it skipped. -/
def component (low high : Nat) : Scan Nat := do
  blanks
  let n ← numberUpTo 2 high
  if n < low then throw .outOfRange
  return n

/-- Take a separator and the blanks around it. -/
def separator (c : Char) : Scan Unit := do
  blanks
  literal c
  blanks

/-- Take a year. One with a sign may have any number of digits. -/
def yearNumber : Scan Int := do
  blanks
  let cs ← get
  match cs with
  | '-' :: rest =>
    set rest
    return -(← numberUpTo rest.length (Nat.pow 2 31))
  | '+' :: rest =>
    set rest
    return ← numberUpTo rest.length (Nat.pow 2 31 - 1)
  | _ => return ← numberUpTo 4 9999

/-- Take the fraction of a second, if a point follows; digits past the ninth do not count. -/
def fraction : Scan Nat := do
  match ← get with
  | '.' :: rest =>
    set rest
    let taken ← digits 9
    modify (·.dropWhile Char.isDigit)
    return Text.decimalValue taken * Nat.pow 10 (9 - taken.length)
  | _ => return 0

/-- Two characters that are to be digits, or nothing if fewer than two bytes are left. -/
def digitPair : List Char → Option (Char × Char × List Char)
  | a :: b :: rest => some (a, b, rest)
  | [a] => if a.toNat < 128 then none else some (a, a, [])
  | [] => none

/-- The minutes by which an hour offset and a minute offset are ahead of UTC. -/
def signedMinutes (negative : Bool) (hours minutes : Nat) : Int :=
  if negative then -(hours * 60 + minutes : Nat) else (hours * 60 + minutes : Nat)

/-- Take the offset from UTC, in minutes. -/
def offset : Scan Int := do
  blanks
  let cs ← get
  if (cs.take 3).map Char.toUpper = ['U', 'T', 'C'] then
    set (cs.drop 3)
    return 0
  match cs with
  | [] => throw .ended
  | c :: rest =>
    if c = 'Z' ∨ c = 'z' then
      set rest
      return 0
    else if c = '+' ∨ c = '-' ∨ c = '\u2212' then
      match digitPair rest with
      | none => throw .ended
      | some (a, b, afterHours) =>
        if !(a.isDigit && b.isDigit) then throw .invalid
        match digitPair (afterHours.dropWhile fun x => x = ':' || Text.isBlank x) with
        | none => throw .ended
        | some (x, y, afterMinutes) =>
          if !(x.isDigit && y.isDigit) then throw .invalid
          if '5' < x then throw .outOfRange
          set afterMinutes
          return signedMinutes (c ≠ '+') (Text.decimalValue [a, b]) (Text.decimalValue [x, y])
    else throw .invalid

/-- The least year of the calendar. -/
def minYear : Int := -262143

/-- The greatest year of the calendar. -/
def maxYear : Int := 262142

/-- Whether a time lies in a year of the calendar. -/
def inCalendar (t : Instant) : Bool := minYear ≤ t.year ∧ t.year ≤ maxYear

/-- Take a local time and its offset. -/
def localTime : Scan (Instant × Int) := do
  let year ← yearNumber
  separator '-'
  let month ← component 1 12
  separator '-'
  let day ← component 1 31
  match ← get with
  | [] => throw .ended
  | c :: rest => if c = 't' ∨ c = 'T' ∨ c = ' ' then set rest else throw .invalid
  let hour ← component 0 23
  separator ':'
  let minute ← component 0 59
  separator ':'
  let second ← component 0 60
  let nanosecond ← fraction
  let minutesAhead ← offset
  return (⟨year, month, day, hour, minute, second, nanosecond⟩, minutesAhead)

/-- The point in time that a text stands for. Both the local time and the time in UTC have to lie
in the calendar. -/
def parse (text : String) : Except Fault Instant := do
  let ((t, minutesAhead), rest) ← localTime.run text.toList
  if Text.trimStart rest ≠ [] then throw .trailing
  if !t.inCalendar ∨ daysInMonth t.year t.month < t.day ∨ 1440 ≤ minutesAhead.natAbs then
    throw .outOfRange
  let utc := t.toUtc minutesAhead
  if !utc.inCalendar then throw .impossible
  return utc

/-! ### Writing -/

/-- The last `width` digits of a number, filled up with zeros. -/
def fixedDigits : (width n : Nat) → List Char
  | 0, _ => []
  | width + 1, n => fixedDigits width (n / 10) ++ [Nat.digitChar (n % 10)]

/-- A year: four digits, or a sign and at least four digits. -/
def yearChars (year : Int) : List Char :=
  if 0 ≤ year ∧ year ≤ 9999 then fixedDigits 4 year.toNat
  else
    let size := Nat.toDigits 10 year.natAbs
    (if year < 0 then '-' else '+') :: List.replicate (4 - size.length) '0' ++ size

/-- The fraction of a second, with no digits, or three, six or nine of them. -/
def fractionChars (nanosecond : Nat) : List Char :=
  if nanosecond = 0 then []
  else if nanosecond % 1000000 = 0 then '.' :: fixedDigits 3 (nanosecond / 1000000)
  else if nanosecond % 1000 = 0 then '.' :: fixedDigits 6 (nanosecond / 1000)
  else '.' :: fixedDigits 9 nanosecond

/-- The characters of a point in time up to its whole second. -/
def secondChars (t : Instant) : List Char :=
  yearChars t.year ++ '-' :: fixedDigits 2 t.month ++ '-' :: fixedDigits 2 t.day ++
    'T' :: fixedDigits 2 t.hour ++ ':' :: fixedDigits 2 t.minute ++ ':' :: fixedDigits 2 t.second

/-- The text of a point in time. -/
def render (t : Instant) : String :=
  String.ofList (t.secondChars ++ fractionChars t.nanosecond ++ ['Z'])

/-- The text of a point in time, always to the microsecond. -/
def renderMicroseconds (t : Instant) : String :=
  String.ofList (t.secondChars ++ '.' :: fixedDigits 6 (t.nanosecond / 1000) ++ ['Z'])

end Instant

end ResourceComposition
