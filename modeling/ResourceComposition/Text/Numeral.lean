/-!
# Decimal numerals

The numbers that decimal digits stand for, and the numerals of whole numbers of 64 bits: digits,
perhaps after a plus sign, for a number that fits.
-/

namespace ResourceComposition.Text

/-- The value of a decimal digit. -/
def digitValue (c : Char) : Nat := c.toNat - '0'.toNat

/-- The value of a list of decimal digits. -/
def decimalValue (digits : List Char) : Nat := digits.foldl (fun n c => 10 * n + digitValue c) 0

/-- The greatest whole number of 64 bits. -/
def maxUInt64 : Nat := Nat.pow 2 64 - 1

/-- The digits of a numeral, without the plus sign. -/
def unsignedDigits : List Char → List Char
  | '+' :: rest => rest
  | cs => cs

/-- The whole number of 64 bits that a numeral stands for. -/
def uint64? (cs : List Char) : Option Nat :=
  let digits := unsignedDigits cs
  if digits ≠ [] ∧ digits.all Char.isDigit ∧ decimalValue digits ≤ maxUInt64 then
    some (decimalValue digits)
  else none

end ResourceComposition.Text
