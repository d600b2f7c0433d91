import ProtoScript.Number.Integral

/-!
# Reading binary64 numbers

A number text is an optional sign followed by one of the words `inf`, `infinity` and `nan` in any
case, or by digits with at most one point among them and an optional decimal exponent. At least one
digit is needed before the exponent, and at least one in it. The value is the binary64 number nearest
to the decimal that is written, save that an exponent that is too long is cut short.
-/

namespace ProtoScript.Number

/-- The binary64 number nearest to `mantissa * 10 ^ exponent`. Exponents so large that the answer is
infinite, or so small that it is zero, are answered without raising ten to them. -/
def nearest (mantissa : Nat) (exponent : Int) : Float :=
  let size := (Nat.toDigits 10 mantissa).length
  if mantissa = 0 then 0.0
  else if exponent + size > 400 then 1.0 / 0.0
  else if exponent + size < -400 then 0.0
  else if exponent < 0 then Float.ofScientific mantissa true exponent.natAbs
  else Float.ofScientific mantissa false exponent.natAbs

/-- Once an exponent has come to this size, the digits after it are left out. Only a text with about
as many digits before the exponent can tell the difference. -/
def exponentLimit : Nat := 65536

/-- The exponent that `n` becomes when one more digit is written after it. -/
def appendToExponent (n : Nat) (c : Char) : Nat :=
  if n < exponentLimit then n * 10 + (c.toNat - '0'.toNat) else n

/-- The exponent that a run of digits stands for; an empty run stands for none. -/
def exponentSize? (cs : List Char) : Option Nat :=
  if cs.isEmpty ∨ !cs.all Char.isDigit then none else some (cs.foldl appendToExponent 0)

/-- The decimal exponent that is written at the end of a number text; none is written in an empty
text, which stands for zero. -/
def exponent? : List Char → Option Int
  | [] => some 0
  | e :: cs =>
    if e = 'e' ∨ e = 'E' then
      match cs with
      | '-' :: ds => (exponentSize? ds).map fun n => -(n : Int)
      | '+' :: ds => (exponentSize? ds).map fun n => (n : Int)
      | ds => (exponentSize? ds).map fun n => (n : Int)
    else none

/-- How many digits of a decimal, zeros in front apart, are read one by one. A number halfway between
two neighbouring binary64 numbers has at most 767 of them, so of the digits past these many it only
matters whether there is one that is not zero. -/
def digitLimit : Nat := 800

/-- A whole number and a power of ten to scale it by, which round as the run of digits does; an empty
run stands for none. The digits past the limit count as a single one if any of them is not zero: that
keeps the number on its side of all the halfway points. -/
def significand? (cs : List Char) : Option (Nat × Nat) :=
  let digits := cs.dropWhile (· = '0')
  let rest := digits.drop digitLimit
  if cs.isEmpty then none
  else if rest.all (· = '0') then
    (appendDigits? 10 0 (digits.take digitLimit)).map (·, rest.length)
  else (appendDigits? 10 0 (digits.take digitLimit ++ ['1'])).map (·, rest.length - 1)

/-- The value of digits with at most one point among them and an optional exponent. -/
def unsigned? (cs : List Char) : Option Float :=
  let whole := cs.takeWhile Char.isDigit
  let afterWhole := cs.dropWhile Char.isDigit
  let fraction := if afterWhole.head? = some '.' then afterWhole.tail.takeWhile Char.isDigit else []
  let afterFraction :=
    if afterWhole.head? = some '.' then afterWhole.tail.dropWhile Char.isDigit else afterWhole
  match significand? (whole ++ fraction), exponent? afterFraction with
  | some (mantissa, scale), some exponent =>
    some (nearest mantissa (exponent + scale - fraction.length))
  | _, _ => none

/-- The value that one of the special words stands for. -/
def special? (cs : List Char) : Option Float :=
  let word := String.ofList (cs.map Char.toLower)
  if word = "inf" ∨ word = "infinity" then some (1.0 / 0.0)
  else if word = "nan" then some (0.0 / 0.0)
  else none

/-- The binary64 number that a number text stands for. -/
def decimal? : List Char → Option Float
  | '-' :: cs => ((special? cs).orElse fun _ => unsigned? cs).map fun x => -x
  | '+' :: cs => (special? cs).orElse fun _ => unsigned? cs
  | cs => (special? cs).orElse fun _ => unsigned? cs

end ProtoScript.Number
