/-!
# Ranges of code points

A property of characters is written as the list of the closed ranges of code points that have it,
in ascending order.

* `CodePointRanges` — such a list.
* `CodePointRanges.contains` — whether a character lies in one of the ranges.
-/

namespace MathExpr.Text

/-- Closed ranges of code points, each written as its first and its last member. -/
abbrev CodePointRanges := List (Nat × Nat)

/-- Whether the code point of `c` lies in one of the ranges. -/
def CodePointRanges.contains (ranges : CodePointRanges) (c : Char) : Bool :=
  ranges.any fun range => range.1 ≤ c.toNat && c.toNat ≤ range.2

end MathExpr.Text
