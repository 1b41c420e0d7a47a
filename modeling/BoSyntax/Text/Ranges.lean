/-!
# Ranges of code points

A class of characters is written as closed ranges of code points in increasing order.
-/

namespace BoSyntax.Text

/-- Closed ranges of code points. -/
abbrev Ranges := List (Nat × Nat)

/-- Whether a character lies in one of the ranges. -/
def Ranges.has (ranges : Ranges) (c : Char) : Bool :=
  ranges.any fun range => decide (range.1 ≤ c.toNat) && decide (c.toNat ≤ range.2)

end BoSyntax.Text
