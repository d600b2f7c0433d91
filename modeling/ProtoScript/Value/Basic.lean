import ProtoScript.Program.Tree
import ProtoScript.Value.Native

/-!
# Values

What expressions evaluate to. Scalars, procedures and native functions are values by themselves;
arrays and objects live in the heap and are referred to, so that everyone who holds a reference sees
what the others change.
-/

namespace ProtoScript

/-- A reference to an object of the heap. -/
structure ObjectRef where
  index : Nat
deriving DecidableEq, Repr, Inhabited

/-- A reference to an array of the heap. -/
structure ArrayRef where
  index : Nat
deriving DecidableEq, Repr, Inhabited

/-- A value. -/
inductive Value where
  | null
  | bool (b : Bool)
  | int (i : Int64)
  | float (x : Float)
  | text (s : String)
  | array (a : ArrayRef)
  | procedure (p : Procedure)
  | native (n : Native)
  | object (o : ObjectRef)
deriving Inhabited

namespace Value

/-- The name of the type that a value has by itself. -/
def typeName : Value → String
  | null => "Null"
  | bool _ => "Bool"
  | int _ => "Int"
  | float _ => "Float"
  | text _ => "Str"
  | array _ => "Array"
  | procedure _ | native _ => "Func"
  | object _ => "Object"

/-- The value of a literal. -/
def ofLiteral : Literal → Value
  | .null => null
  | .bool b => bool b
  | .int i => int i
  | .float x => float x
  | .text s => text s

/-- The integer that stands for a truth value. -/
def truth (b : Bool) : Value :=
  int (if b then 1 else 0)

/-- Whether two values are the same: equal scalars, native functions of one name, or the very same
array, object or procedure. -/
def identical : Value → Value → Bool
  | null, null => true
  | bool a, bool b => a == b
  | int a, int b => a == b
  | float a, float b => a == b
  | text a, text b => a == b
  | array a, array b => a == b
  | procedure p, procedure q => p.same q
  | native m, native n => m.name == n.name
  | object a, object b => a == b
  | _, _ => false

end Value

end ProtoScript
