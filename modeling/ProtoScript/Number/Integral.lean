import ProtoScript.Number.Checked

/-!
# Integers as text

Reading an integer: an optional sign and at least one digit of the radix. The digits beyond nine are
letters of either case.
-/

namespace ProtoScript.Number

/-- The value of a digit or letter, where `a` counts ten. -/
def digitValue? (c : Char) : Option Nat :=
  if c.isDigit then some (c.toNat - '0'.toNat)
  else if 'a' ≤ c ∧ c ≤ 'z' then some (c.toNat - 'a'.toNat + 10)
  else if 'A' ≤ c ∧ c ≤ 'Z' then some (c.toNat - 'A'.toNat + 10)
  else none

/-- The value of a digit of the given radix. -/
def digit? (radix : Nat) (c : Char) : Option Nat :=
  (digitValue? c).filter (· < radix)

/-- The number that `n` becomes when more digits are written after it. -/
def appendDigits? (radix : Nat) : Nat → List Char → Option Nat
  | n, [] => some n
  | n, c :: cs => (digit? radix c).bind fun d => appendDigits? radix (n * radix + d) cs

/-- The most digits, zeros in front apart, that a word can have in any radix. -/
def wordDigits : Nat := 64

/-- The number that a run of digits stands for; an empty run stands for none. A run with more digits
than a word can have is not worth reading. -/
def magnitude? (radix : Nat) (cs : List Char) : Option Nat :=
  let digits := cs.dropWhile (· = '0')
  if cs.isEmpty ∨ digits.length > wordDigits then none else appendDigits? radix 0 digits

/-- The word that an integer text stands for, if the text is one and its value fits. -/
def integer? (radix : Nat) : List Char → Option Int64
  | '-' :: cs => (magnitude? radix cs).bind fun n => fit? (-(n : Int))
  | '+' :: cs => (magnitude? radix cs).bind fun n => fit? n
  | cs => (magnitude? radix cs).bind fun n => fit? n

/-- An integer as text, in decimal. -/
def integerText (i : Int64) : String :=
  toString i.toInt

end ProtoScript.Number
