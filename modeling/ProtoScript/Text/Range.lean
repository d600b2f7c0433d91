/-!
# Ranges of characters

Sets of characters given as tables of ranges of code points, both ends of a range included.
-/

namespace ProtoScript.Text

/-- Whether the code point of a character lies in one of several ranges. -/
def inRanges (ranges : List (Nat × Nat)) (c : Char) : Bool :=
  ranges.any fun range => range.1 ≤ c.toNat && c.toNat ≤ range.2

end ProtoScript.Text
