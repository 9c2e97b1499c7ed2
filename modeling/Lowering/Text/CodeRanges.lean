/-!
# Ranges of code points

* `Text.CodeRanges`, `Text.CodeRanges.contains`.
-/

namespace Lowering.Text

/-- Ranges of code points, each given by its first and last one. -/
structure CodeRanges where
  ranges : List (Nat × Nat)

/-- Whether a character is in one of the ranges. -/
def CodeRanges.contains (r : CodeRanges) (c : Char) : Bool :=
  r.ranges.any fun (first, last) => decide (first ≤ c.toNat) && decide (c.toNat ≤ last)

end Lowering.Text
