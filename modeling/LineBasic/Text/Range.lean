/-!
# Classes of characters

A class of characters is given by the ranges of its code points.
-/

namespace LineBasic.Text

/-- The code points from the first to the second, both included. -/
abbrev Range := Nat × Nat

/-- Whether a character lies in one of the ranges. -/
def inRanges (ranges : List Range) (c : Char) : Bool :=
  ranges.any fun (first, last) => first ≤ c.toNat && c.toNat ≤ last

end LineBasic.Text
