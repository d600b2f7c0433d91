import ProtoScript.Number.Shortest

/-!
# Binary64 numbers as text

A number without a fractional part is written with all its digits and `.0`; any other finite number
is written with the fewest digits that read back as it. No exponent is ever written.
-/

namespace ProtoScript.Number

/-- Drops zeros at the end of the digits, as far as they stand behind the point. -/
def DecimalNumber.stripped (d : DecimalNumber) : Nat → DecimalNumber
  | 0 => d
  | fuel + 1 =>
    if d.exponent < 0 ∧ d.digits % 10 = 0 ∧ d.digits ≠ 0 then
      DecimalNumber.stripped ⟨d.digits / 10, d.exponent + 1⟩ fuel
    else d

/-- A decimal in positional notation. -/
def DecimalNumber.positional (d : DecimalNumber) : String :=
  let digits := Nat.toDigits 10 d.digits
  if d.exponent < 0 then
    let behind := d.exponent.natAbs
    let padded := List.replicate (behind + 1 - digits.length) '0' ++ digits
    let before := padded.length - behind
    String.ofList (padded.take before ++ '.' :: padded.drop before)
  else String.ofList (digits ++ List.replicate d.exponent.natAbs '0')

/-- The size of a finite number as text. -/
def Binary.text (b : Binary) : String :=
  match b.whole? with
  | some n => toString n ++ ".0"
  | none => (b.shortest.stripped 20).positional

/-- A binary64 number as text. -/
def floatText (x : Float) : String :=
  match decode x with
  | .notANumber => "NaN"
  | .infinite negative => if negative then "-inf" else "inf"
  | .finite b => (if b.negative then "-" else "") ++ b.text

end ProtoScript.Number
