import ProtoScript.Number.Decimal

/-!
# Literals

The values that are written down directly, and what a numeral stands for. A numeral that starts with
a zero and one of the letters `x`, `o` and `b` of either case is an integer in radix sixteen, eight or
two; any other numeral with a point is a binary64 number, and without one a decimal integer.
-/

namespace ProtoScript

/-- A value that is written down directly. -/
inductive Literal where
  | null
  | bool (b : Bool)
  | int (i : Int64)
  | float (x : Float)
  | text (s : String)
deriving Inhabited

namespace Literal

/-- The radix that a letter after a leading zero asks for. -/
def radix? (c : Char) : Option Nat :=
  if c = 'x' ∨ c = 'X' then some 16
  else if c = 'o' ∨ c = 'O' then some 8
  else if c = 'b' ∨ c = 'B' then some 2
  else none

/-- The value of a numeral without a radix. -/
def plainNumeral? (cs : List Char) : Option Literal :=
  if '.' ∈ cs then (Number.decimal? cs).map float
  else (Number.integer? 10 cs).map int

/-- The value that a numeral stands for, if it stands for any. -/
def ofNumeral? (spelling : String) : Option Literal :=
  match spelling.toList with
  | '0' :: c :: cs =>
    match radix? c with
    | some radix => (Number.integer? radix cs).map int
    | none => plainNumeral? ('0' :: c :: cs)
  | cs => plainNumeral? cs

end Literal

end ProtoScript
