/-!
# Binary64 numbers, exactly

A finite binary64 number is an integer times a power of two. Everything that has to be exact about
such numbers (their text, their remainders) is computed on that pair with whole numbers.
-/

namespace ProtoScript.Number

/-- A finite binary64 number: `mantissa * 2 ^ exponent`, or its negation. Zero has a sign too. -/
structure Binary where
  negative : Bool
  mantissa : Nat
  exponent : Int
deriving DecidableEq, Repr

/-- What a binary64 number is. -/
inductive Decoded where
  | notANumber
  | infinite (negative : Bool)
  | finite (b : Binary)
deriving DecidableEq, Repr

/-- Takes the bits of a binary64 number apart: a sign, eleven bits of exponent and 52 of fraction. -/
def decode (x : Float) : Decoded :=
  let bits := x.toBits.toNat
  let negative := decide (bits / Nat.pow 2 63 = 1)
  let biased : Nat := bits / Nat.pow 2 52 % Nat.pow 2 11
  let fraction := bits % Nat.pow 2 52
  if biased = 2047 then
    if fraction = 0 then .infinite negative else .notANumber
  else if biased = 0 then .finite ⟨negative, fraction, -1074⟩
  else .finite ⟨negative, Nat.pow 2 52 + fraction, (biased : Int) - 1075⟩

namespace Binary

/-- The size of the number as a fraction of whole numbers: numerator and denominator. -/
def magnitude (b : Binary) : Nat × Nat :=
  if b.exponent < 0 then (b.mantissa, Nat.pow 2 b.exponent.natAbs)
  else (b.mantissa * Nat.pow 2 b.exponent.natAbs, 1)

/-- The whole number that the size is, if it is one. -/
def whole? (b : Binary) : Option Nat :=
  let size := b.magnitude
  if size.1 % size.2 = 0 then some (size.1 / size.2) else none

/-- The binary64 number; exact when the mantissa has at most 53 bits and the exponent is one that
binary64 has. -/
def toFloat (b : Binary) : Float :=
  let size := Float.scaleB (Float.ofNat b.mantissa) b.exponent
  if b.negative then -size else size

end Binary

/-- The binary64 number nearest to an integer. -/
def ofInt64 (i : Int64) : Float :=
  let size := i.toInt.natAbs.toUInt64.toFloat
  if i < 0 then -size else size

end ProtoScript.Number
