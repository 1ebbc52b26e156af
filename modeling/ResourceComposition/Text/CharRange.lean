/-!
# Ranges of code points

The properties of the Unicode standard that this library needs are kept as tables of ranges.
-/

namespace ResourceComposition.Text

/-- Ranges of code points, each given by its first and its last. -/
abbrev CharRanges : Type := Array (Nat × Nat)

/-- Whether a character lies in one of the ranges. -/
def CharRanges.contains (ranges : CharRanges) (c : Char) : Bool :=
  ranges.any fun (first, last) => first ≤ c.toNat && c.toNat ≤ last

end ResourceComposition.Text
