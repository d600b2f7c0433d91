import ProtoScript.Heap.Unwrap
import ProtoScript.Number.Checked
import ProtoScript.Number.Remainder
import ProtoScript.Value.Basic

/-!
# Arithmetic on values

The rules for numbers apart from where the operands come from. Integers stay integers and are checked
for overflow; as soon as one operand is a binary64 number, both are.
-/

namespace ProtoScript.Value

/-- Whether a value is a number. -/
def isNumber : Value → Bool
  | int _ | float _ => true
  | _ => false

/-- A number as binary64; what is no number becomes the one that is none. -/
def toFloat : Value → Float
  | int i => Number.ofInt64 i
  | float x => x
  | _ => 0.0 / 0.0

/-- How two binary64 numbers compare; one that is no number compares with none. -/
def compareFloats (x y : Float) : Option Ordering :=
  if x < y then some .lt
  else if x == y then some .eq
  else if x > y then some .gt
  else none

/-- How two values compare: numbers by size, texts by their characters, and nothing else does. -/
def ordering? : Value → Value → Option Ordering
  | int a, int b => some (compare a.toInt b.toInt)
  | text a, text b => some (compare a b)
  | a, b => if a.isNumber && b.isNumber then compareFloats a.toFloat b.toFloat else none

/-- Whether two values are equal: as numbers or texts if they compare, else if they are identical. -/
def equals (a b : Value) : Bool :=
  match ordering? a b with
  | some o => o == .eq
  | none => a.identical b

/-- Whether a scalar counts as true by itself; the length is that of an array. -/
def isTruthy (length : ArrayRef → Nat) : Value → Bool
  | null => false
  | bool b => b
  | int i => i != 0
  | float x => x != 0.0
  | text s => !s.isEmpty
  | array a => length a != 0
  | _ => true

end ProtoScript.Value

namespace ProtoScript

/-- An operation on numbers: what it is called, and what it does with integers and with binary64
numbers. -/
structure ArithmeticRule where
  action : String
  onInts : Int64 → Int64 → Option Int64
  onFloats : Float → Float → Float

namespace ArithmeticRule

/-- Addition. -/
def add : ArithmeticRule := ⟨"add", Number.add?, fun x y => x + y⟩

/-- Subtraction. -/
def subtract : ArithmeticRule := ⟨"subtract", Number.sub?, fun x y => x - y⟩

/-- Multiplication. -/
def multiply : ArithmeticRule := ⟨"multiply", Number.mul?, fun x y => x * y⟩

/-- Division; that of integers is rounded to the floor. -/
def divide : ArithmeticRule := ⟨"divide", Number.floorDiv?, fun x y => x / y⟩

/-- The remainder, with the sign of the divisor. -/
def modulo : ArithmeticRule := ⟨"take the modulo of", Number.floorMod?, Number.floorMod⟩

/-- The result for two numbers; there is none if integers overflow. -/
def result? (r : ArithmeticRule) : Value → Value → Option Value
  | .int a, .int b => (r.onInts a b).map Value.int
  | a, b => some (.float (r.onFloats a.toFloat b.toFloat))

end ArithmeticRule

end ProtoScript
