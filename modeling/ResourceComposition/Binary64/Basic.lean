/-!
# Binary floating point

The finite numbers of the 64-bit binary format, without reference to machine arithmetic: a
number is a sign and the rank of its magnitude among all finite magnitudes. Neighbouring ranks
are neighbouring numbers, so rounding and the search for a short decimal need natural numbers
only.
-/

namespace ResourceComposition

/-- How many magnitudes lie between a power of two and the next. -/
def binade : Nat := Nat.pow 2 52

/-- How many finite magnitudes there are. -/
def finiteMagnitudes : Nat := 2047 * binade

/-- A finite number of the 64-bit binary format. Rank zero is zero, of either sign. -/
structure Binary64 where
  /-- Whether the sign is set. -/
  negative : Bool
  /-- The place of the magnitude in the increasing list of all finite magnitudes. -/
  rank : Fin finiteMagnitudes
  deriving DecidableEq

/-- The quotient rounded to the nearest whole number, a half going to the even neighbour. -/
def roundHalfEven (numerator denominator : Nat) : Nat :=
  let quotient := numerator / denominator
  let twice := 2 * (numerator % denominator)
  if twice < denominator then quotient
  else if denominator < twice then quotient + 1
  else quotient + quotient % 2

namespace Binary64

/-- Zero without a sign. -/
def zero : Binary64 := ⟨false, ⟨0, by decide⟩⟩

/-- The same magnitude with the sign given. -/
def withSign (negative : Bool) (x : Binary64) : Binary64 := { x with negative }

/-- The whole number that, times two to the `exponent`, is the magnitude. -/
def significand (x : Binary64) : Nat :=
  if x.rank.val < binade then x.rank.val else binade + x.rank.val % binade

/-- The power of two that goes with the significand; the least one is -1074. -/
def exponent (x : Binary64) : Int :=
  if x.rank.val < binade then -1074 else (x.rank.val / binade : Nat) - 1075

/-- The numerator of the magnitude. -/
def numerator (x : Binary64) : Nat := x.significand * Nat.pow 2 x.exponent.toNat

/-- The denominator of the magnitude. -/
def denominator (x : Binary64) : Nat := Nat.pow 2 (-x.exponent).toNat

/-- The exponent that leaves the quotient a significand of 53 bits, or the least exponent when
the quotient is too small for that. -/
private def fittingExponent (numerator denominator : Nat) : Int :=
  let guess : Int := (numerator.log2 : Int) - denominator.log2 - 52
  let fits := denominator * Nat.pow 2 guess.toNat * binade ≤ numerator * Nat.pow 2 (-guess).toNat
  max (-1074) (if fits then guess else guess - 1)

/-- The number nearest to a quotient, a half going to the even rank; none when it lies beyond the
greatest finite number. -/
def ofRatio (negative : Bool) (numerator denominator : Nat) : Option Binary64 :=
  let q := fittingExponent numerator denominator
  let rounded :=
    roundHalfEven (numerator * Nat.pow 2 (-q).toNat) (denominator * Nat.pow 2 q.toNat)
  let rank := (q + 1074).toNat * binade + rounded
  if h : numerator ≠ 0 ∧ rank < finiteMagnitudes then some ⟨negative, ⟨rank, h.2⟩⟩
  else if numerator = 0 then some (zero.withSign negative)
  else none

/-- The product, rounded once. -/
def mul (x y : Binary64) : Option Binary64 :=
  ofRatio (x.negative != y.negative) (x.numerator * y.numerator) (x.denominator * y.denominator)

/-- The quotient by a number other than zero, rounded once. -/
def div (x y : Binary64) : Option Binary64 :=
  ofRatio (x.negative != y.negative) (x.numerator * y.denominator) (x.denominator * y.numerator)

/-- Whether two numbers have one value: the sign of zero does not count. -/
def sameValue (x y : Binary64) : Bool := x = y ∨ (x.rank.val = 0 ∧ y.rank.val = 0)

/-- The greatest power of ten that has a nearest finite number. -/
def maxPowerOfTen : Nat := 308

/-- A whole number times a power of ten, as a decimal numeral is read: the whole number is rounded
to a number of the format, then multiplied or divided by the number nearest to the power of ten
and rounded again. A power below the least is divided out in two steps. -/
def ofScaled (negative : Bool) (digits : Nat) (exponent : Int) : Option Binary64 := do
  let whole ← ofRatio negative digits 1
  let power (n : Nat) : Option Binary64 := ofRatio false (Nat.pow 10 n) 1
  if whole.rank.val = 0 then return whole
  if 0 ≤ exponent then
    if exponent.toNat ≤ maxPowerOfTen then mul whole (← power exponent.toNat) else none
  else
    let places := (-exponent).toNat
    if places ≤ maxPowerOfTen then div whole (← power places)
    else
      let reduced ← div whole (← power maxPowerOfTen)
      if places ≤ 2 * maxPowerOfTen then div reduced (← power (places - maxPowerOfTen))
      else return zero.withSign negative

end Binary64

end ResourceComposition
