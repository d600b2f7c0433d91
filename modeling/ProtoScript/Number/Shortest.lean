import ProtoScript.Number.Binary

/-!
# The shortest decimal

The fewest digits that read back as a given binary64 number. The reals that round to a number form an
interval around it, whose ends belong to it exactly when the mantissa is even. For each number of
digits there is a grid of decimals, and if any point of the grid lies in the interval then one of the
two neighbours of the number on the grid does. The first grid with such a neighbour wins; of two
neighbours the nearer one is taken, and the larger one if they are equally near.
-/

namespace ProtoScript.Number

/-- The decimal `digits * 10 ^ exponent`. -/
structure DecimalNumber where
  digits : Nat
  exponent : Int
deriving DecidableEq, Repr

/-- The reals that round to a binary64 number, scaled to whole numbers: the number itself is
`value / scale`, and the ends of the interval are `low / scale` and `high / scale`. -/
structure RoundingInterval where
  low : Nat
  value : Nat
  high : Nat
  scale : Nat
  closed : Bool

/-- The interval of the reals that round to a positive number. Below a power of two the numbers lie
twice as dense, so there the lower end is half as far away. -/
def Binary.interval (b : Binary) : RoundingInterval :=
  let up := if b.exponent < 0 then 1 else Nat.pow 2 b.exponent.natAbs
  let below := if b.mantissa = Nat.pow 2 52 ∧ b.exponent ≠ -1074 then 1 else 2
  { low := (4 * b.mantissa - below) * up
    value := 4 * b.mantissa * up
    high := (4 * b.mantissa + 2) * up
    scale := 4 * (if b.exponent < 0 then Nat.pow 2 b.exponent.natAbs else 1)
    closed := b.mantissa % 2 = 0 }

/-- Whether the fraction `p / q` lies in the interval. -/
def RoundingInterval.contains (i : RoundingInterval) (p q : Nat) : Bool :=
  if i.closed then i.low * q ≤ p * i.scale && p * i.scale ≤ i.high * q
  else i.low * q < p * i.scale && p * i.scale < i.high * q

/-- The point `digits` of the grid with unit `10 ^ exponent`, as a fraction. -/
def gridPoint (digits : Nat) (exponent : Int) : Nat × Nat :=
  if exponent < 0 then (digits, Nat.pow 10 exponent.natAbs)
  else (digits * Nat.pow 10 exponent.natAbs, 1)

/-- The nearest neighbour of the value on the grid with unit `10 ^ exponent` that lies in the
interval. -/
def RoundingInterval.onGrid? (i : RoundingInterval) (exponent : Int) : Option DecimalNumber :=
  let unit := gridPoint 1 exponent
  let num := i.value * unit.2
  let den := i.scale * unit.1
  let below := num / den
  let holds (d : Nat) : Bool := i.contains (gridPoint d exponent).1 (gridPoint d exponent).2
  let belowFits := decide (below ≠ 0) && holds below
  let aboveFits := holds (below + 1)
  if aboveFits && (!belowFits || 2 * (num % den) ≥ den) then some ⟨below + 1, exponent⟩
  else if belowFits then some ⟨below, exponent⟩
  else none

/-- The least number of decimal places to the left of the point that holds the value: the value is
below `10 ^ result`, and at least a tenth of that. The search starts at `guess` and takes at most
`fuel` steps. -/
def RoundingInterval.places (i : RoundingInterval) : Nat → Int → Int
  | 0, guess => guess
  | fuel + 1, guess =>
    let top := gridPoint 1 guess
    let bottom := gridPoint 1 (guess - 1)
    if i.value * top.2 ≥ top.1 * i.scale then i.places fuel (guess + 1)
    else if i.value * bottom.2 < bottom.1 * i.scale then i.places fuel (guess - 1)
    else guess

/-- The first grid with a point in the interval, from `count` digits on. -/
def RoundingInterval.shortestFrom (i : RoundingInterval) (places : Int) : Nat → Nat → DecimalNumber
  | 0, count => ⟨i.value / i.scale, (places - count)⟩
  | fuel + 1, count =>
    match i.onGrid? (places - count) with
    | some d => d
    | none => i.shortestFrom places fuel (count + 1)

/-- The fewest digits that read back as the given number, which must not be zero. Seventeen digits
are always enough, and the number of places lies within 400 of zero. -/
def Binary.shortest (b : Binary) : DecimalNumber :=
  let i := b.interval
  i.shortestFrom (i.places 800 0) 17 1

end ProtoScript.Number
