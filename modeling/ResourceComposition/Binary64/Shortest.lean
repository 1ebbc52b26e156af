import ResourceComposition.Binary64.Basic

/-!
# Shortest decimals

The decimal with the fewest digits that reads back as a given binary number. The reals that round
to the number form an interval around it, whose ends belong to it when its significand is even.
The search goes through the decimal grids from the coarsest to the finest and takes the first
grid with a point in the interval; of two such points it takes the one nearer to the number.

A decimal is laid out in one of two ways, positionally or with an exponent that carries its sign;
`Layout` says for which sizes a format writes positionally.
-/

namespace ResourceComposition

/-- A positive decimal: a whole number of units of ten to the `exponent`. -/
structure Decimal where
  /-- The digits, read as a whole number. -/
  digits : Nat
  /-- The power of ten of the last digit. -/
  exponent : Int
  deriving DecidableEq

/-- Where a format writes a decimal without an exponent: the place of the point, counted from
before the first digit, lies between the two bounds. -/
structure Layout where
  /-- The least place of the point that is written positionally. -/
  lowest : Int
  /-- The greatest place of the point that is written positionally. -/
  highest : Int

namespace Decimal

/-- The place of the decimal point, counted from before the first digit. -/
def point (d : Decimal) : Int := (Nat.toDigits 10 d.digits).length + d.exponent

/-- The text of an exponent, its sign first. -/
def exponentChars (exponent : Int) : List Char :=
  (if 0 ≤ exponent then '+' else '-') :: Nat.toDigits 10 exponent.natAbs

/-- Write a decimal; a whole number that is written positionally ends in a point and a zero. -/
def render (layout : Layout) (d : Decimal) : List Char :=
  let digits := Nat.toDigits 10 d.digits
  let place := d.point
  if layout.lowest ≤ place ∧ place ≤ layout.highest then
    if 0 ≤ d.exponent then digits ++ List.replicate d.exponent.toNat '0' ++ ['.', '0']
    else if 0 < place then digits.take place.toNat ++ '.' :: digits.drop place.toNat
    else '0' :: '.' :: List.replicate (-place).toNat '0' ++ digits
  else
    let fraction := if digits.length = 1 then [] else '.' :: digits.drop 1
    digits.take 1 ++ fraction ++ 'e' :: exponentChars (place - 1)

end Decimal

namespace Binary64

/-- The point of the grid of step ten to the `k` that lies in the interval of reals which round to
`x`; of two the nearer, of two equally near the even one. -/
private def gridPoint? (x : Binary64) (k : Int) : Option Nat :=
  let m := x.significand
  let boundary := x.rank.val % binade = 0 ∧ 2 * binade ≤ x.rank.val
  let scale := Nat.pow 2 (x.exponent - 2).toNat * Nat.pow 10 (-k).toNat
  let unit := Nat.pow 2 (2 - x.exponent).toNat * Nat.pow 10 k.toNat
  let value := 4 * m * scale
  let low := (4 * m - if boundary then 1 else 2) * scale
  let high := (4 * m + 2) * scale
  let inside (n : Nat) : Bool :=
    if m % 2 = 0 then low ≤ n * unit ∧ n * unit ≤ high else low < n * unit ∧ n * unit < high
  let below := value / unit
  let above := below + 1
  match inside below, inside above with
  | true, true =>
    let toBelow := value - below * unit
    let toAbove := above * unit - value
    if toBelow < toAbove ∨ (toBelow = toAbove ∧ below % 2 = 0) then some below else some above
  | true, false => some below
  | false, true => some above
  | false, false => none

/-- The first grid with a point, from the grid of ten to the `k` down, over `steps` grids. -/
private def search (x : Binary64) (k : Int) : Nat → Decimal
  | 0 => ⟨0, 0⟩
  | steps + 1 =>
    match x.gridPoint? k with
    | some n => ⟨n, k⟩
    | none => search x (k - 1) steps

/-- The decimal of fewest digits that reads back as the magnitude of `x`. -/
def shortest (x : Binary64) : Decimal :=
  if x.rank.val = 0 then ⟨0, 0⟩ else search x 309 640

/-- The text of a number: its sign and the shortest decimal. -/
def render (layout : Layout) (x : Binary64) : List Char :=
  (if x.negative then ['-'] else []) ++ x.shortest.render layout

end Binary64

end ResourceComposition
