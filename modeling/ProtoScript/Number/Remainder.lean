import ProtoScript.Number.Binary

/-!
# Remainders of binary64 numbers

The remainder of a division that is rounded toward zero is again a binary64 number, so it is computed
exactly on whole numbers. The remainder that the language uses takes the sign of the divisor.
-/

namespace ProtoScript.Number

/-- The exact remainder of two finite numbers, the second one not zero, with the sign of the first:
both are brought to the smaller of the two exponents. -/
def Binary.remainder (a b : Binary) : Binary :=
  let exponent := min a.exponent b.exponent
  let p := a.mantissa * Nat.pow 2 (a.exponent - exponent).natAbs
  let q := b.mantissa * Nat.pow 2 (b.exponent - exponent).natAbs
  ⟨a.negative, p % q, exponent⟩

/-- The remainder of a division rounded toward zero. It is undefined for an infinite dividend and for
a zero divisor; an infinite divisor leaves the dividend as it is. -/
def truncMod (x y : Float) : Float :=
  match decode x, decode y with
  | .finite a, .finite b => if b.mantissa = 0 then 0.0 / 0.0 else (a.remainder b).toFloat
  | .finite _, .infinite _ => x
  | _, _ => 0.0 / 0.0

/-- The remainder that takes the sign of the divisor. -/
def floorMod (x y : Float) : Float :=
  let r := truncMod x y
  if r != 0.0 && (decide (r < 0.0) != decide (y < 0.0)) then r + y else r

end ProtoScript.Number
