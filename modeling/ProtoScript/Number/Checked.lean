/-!
# Checked integer arithmetic

The integers of the language are signed words of 64 bits. An operation gives the exact result where
that fits into a word, and nothing otherwise. Division rounds to the floor, and the remainder takes
the sign of the divisor; both start from the word operations, which round toward zero, and correct
them.
-/

namespace ProtoScript.Number

/-- The word with the given value, if there is one. -/
def fit? (i : Int) : Option Int64 :=
  if Int64.minValue.toInt ≤ i ∧ i ≤ Int64.maxValue.toInt then some (Int64.ofInt i) else none

/-- The sum, if it fits. -/
def add? (a b : Int64) : Option Int64 := fit? (a.toInt + b.toInt)

/-- The difference, if it fits. -/
def sub? (a b : Int64) : Option Int64 := fit? (a.toInt - b.toInt)

/-- The product, if it fits. -/
def mul? (a b : Int64) : Option Int64 := fit? (a.toInt * b.toInt)

/-- The negation, if it fits. -/
def neg? (a : Int64) : Option Int64 := fit? (-a.toInt)

/-- Whether dividing one word by another has no result: the divisor is zero, or the quotient is one
more than the largest word. -/
def divisionFails (a b : Int64) : Bool :=
  b == 0 || (a == Int64.minValue && b == -1)

/-- Whether exactly one of two words is negative. -/
def signsDiffer (a b : Int64) : Bool :=
  decide (a < 0) != decide (b < 0)

/-- The quotient, rounded to the floor: one less than the quotient of the words where that was
rounded up. -/
def floorDiv? (a b : Int64) : Option Int64 :=
  if divisionFails a b then none
  else some (if a % b != 0 && signsDiffer a b then a / b - 1 else a / b)

/-- The remainder that belongs to the floor of the quotient: the remainder of the words, moved to the
divisor's side of zero. -/
def floorMod? (a b : Int64) : Option Int64 :=
  if divisionFails a b then none
  else some (if a % b != 0 && signsDiffer (a % b) b then a % b + b else a % b)

end ProtoScript.Number
