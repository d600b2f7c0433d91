import ProtoScript.Eval.Arithmetic
import ProtoScript.Eval.Native.Argument
import ProtoScript.Number.Decimal
import ProtoScript.Text.Blank

/-!
# Native members of numbers, texts and the other scalars
-/

namespace ProtoScript

namespace Eval

variable (self : Work → Eval Value)

/-- A value as an integer. Binary64 numbers are cut off behind the point, and to the range of
integers. -/
def asInt (v : Value) (pos : Position) : Eval Value :=
  match v with
  | .int i => return .int i
  | .bool b => return .truth b
  | .float x =>
    if x.isFinite then return .int x.toInt64 else raise (.notConvertible v.typeName "Int") pos
  | .text s =>
    match Number.integer? 10 (Text.trim s.toList) with
    | some i => return .int i
    | none => raise (.unreadableNumber s "Int") pos
  | _ => raise (.notConvertible v.typeName "Int") pos

/-- A value as a binary64 number. -/
def asFloat (v : Value) (pos : Position) : Eval Value :=
  match v with
  | .int i => return .float (Number.ofInt64 i)
  | .float x => return .float x
  | .bool b => return .float (if b then 1.0 else 0.0)
  | .text s =>
    match Number.decimal? (Text.trim s.toList) with
    | some x => return .float x
    | none => raise (.unreadableNumber s "Float") pos
  | _ => raise (.notConvertible v.typeName "Float") pos

/-- What a scalar type holds after it is constructed from a value: the value, brought to the kind of
the default that its template holds. -/
def coerce (default v : Value) (pos : Position) : Eval Value :=
  match default, v with
  | .int _, v => asInt v pos
  | .float _, v => asFloat v pos
  | .text _, .text s => return .text s
  | .text _, v => return .text (← stringify self v pos)
  | .bool _, .bool b => return .bool b
  | .bool _, v => return .bool (← isTrue self v pos)
  | .array _, .array a => return .array a
  | .null, .procedure p => return .procedure p
  | .null, .native n => return .native n
  | .null, .null => return .null
  | default, v => raise (.cannotConstruct default.typeName v.typeName) pos

/-- `construct` of the scalar types: stores the first argument, if there is one, in the receiver. -/
def constructScalar (c : NativeCall) : Eval Value := do
  let this ← receiver c
  match c.arguments with
  | [] => return .null
  | v :: _ =>
    let v ← unwrap v
    let default := ((← get).heap.ownMember? this Heap.payload).getD .null
    assignMember this Heap.payload (← coerce self default v c.pos)
    return .null

/-- `bool` of the scalar types. -/
def scalarTruth (c : NativeCall) : Eval Value := do
  let h := (← get).heap
  return .truth ((h.unwrap c.this).isTruthy fun a => (h.elements a).size)

/-- `to_int`. -/
def toInt (c : NativeCall) : Eval Value := do
  asInt (← unwrap c.this) c.pos

/-- `to_float`. -/
def toFloat (c : NativeCall) : Eval Value := do
  asFloat (← unwrap c.this) c.pos

/-- The receiver and the first argument, which have to be numbers. -/
def numericOperands (action : String) (c : NativeCall) : Eval (Value × Value) := do
  let left ← unwrap c.this
  let right ← unwrap (c.argument 0)
  if left.isNumber && right.isNumber then return (left, right)
  else raise (.cannotCombine action left.typeName right.typeName) c.pos

/-- `add`, `sub` and `mul` of numbers. -/
def arithmetic (r : ArithmeticRule) (c : NativeCall) : Eval Value := do
  let (left, right) ← numericOperands r.action c
  match r.result? left right with
  | some v => return v
  | none => raise (.overflow r.action) c.pos

/-- `div` and `mod` of numbers, which need a divisor other than zero. -/
def division (r : ArithmeticRule) (c : NativeCall) : Eval Value := do
  let (_, right) ← numericOperands r.action c
  if right.toFloat == 0.0 then raise .divisionByZero c.pos
  else arithmetic r c

/-- `neg` of numbers. -/
def negateNumber (c : NativeCall) : Eval Value := do
  match ← unwrap c.this with
  | .int i =>
    match Number.neg? i with
    | some n => return .int n
    | none => raise (.overflow "negate") c.pos
  | .float x => return .float (-x)
  | other => raise (.cannotNegate other.typeName) c.pos

/-- `pos` of numbers. -/
def identity (c : NativeCall) : Eval Value := do
  let v ← unwrap c.this
  if v.isNumber then return v else raise (.cannotKeepSign v.typeName) c.pos

/-- `lt`, `lte`, `gt` and `gte`. -/
def comparison (symbol : String) (accept : Ordering → Bool) (c : NativeCall) : Eval Value := do
  let left ← unwrap c.this
  let right ← unwrap (c.argument 0)
  match left.ordering? right with
  | some o => return .truth (accept o)
  | none => raise (.cannotCompare left.typeName right.typeName symbol) c.pos

/-- `len` of texts, in characters. -/
def textLength (c : NativeCall) : Eval Value := do
  return .int (Int64.ofNat (← textReceiver c).length)

/-- `add` of texts, which takes the text of any value. -/
def appendText (c : NativeCall) : Eval Value := do
  let left ← textReceiver c
  return .text (left ++ (← stringify self (c.argument 0) c.pos))

/-- `at` of texts: the character at an index, as a text. -/
def charAt (c : NativeCall) : Eval Value := do
  let chars := (← textReceiver c).toList
  let index ← indexArgument c 0
  let i ← resolveIndex c index chars.length
  return .text (String.ofList (chars[i]?).toList)

/-- `max` and `min`: the candidate that compares as wanted with all before it. They are the arguments,
or the elements of a single argument that is an array. -/
def extremum (name : String) (wanted : Ordering) (c : NativeCall) : Eval Value := do
  let candidates ←
    match c.arguments with
    | [single] =>
      match ← unwrap single with
      | .array a => pure ((← get).heap.elements a).toList
      | other => pure [other]
    | many => pure many
  let rec best (current : Value) : List Value → Eval Value
    | [] => return current
    | v :: vs => do
      let candidate ← unwrap v
      match candidate.ordering? current with
      | some o => best (if o == wanted then candidate else current) vs
      | none => raise (.incomparable name candidate.typeName current.typeName) c.pos
  match candidates with
  | [] => raise (.noCandidates name) c.pos
  | v :: vs => best (← unwrap v) vs

end Eval

end ProtoScript
