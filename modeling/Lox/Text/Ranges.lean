/-!
# Tables of characters

A set of characters is kept as a table of ranges of code points.
-/

namespace Lox

/-- A table of ranges of code points, both ends included. -/
abbrev CharRanges := List (Nat × Nat)

/-- A character lies in one of the ranges. -/
def CharRanges.contains (table : CharRanges) (c : Char) : Bool :=
  table.any fun range => range.1 ≤ c.toNat && c.toNat ≤ range.2

end Lox
