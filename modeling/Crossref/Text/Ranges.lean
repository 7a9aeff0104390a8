/-!
# Character classes by ranges

A class of characters that no short rule describes is given by a table of its code points.
-/

namespace Crossref.Text

/-- Some range of the table, both ends included, holds the code point of `c`. -/
def inRanges (ranges : List (Nat × Nat)) (c : Char) : Bool :=
  ranges.any fun range => decide (range.1 ≤ c.toNat ∧ c.toNat ≤ range.2)

end Crossref.Text
