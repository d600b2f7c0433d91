import ProtoScript.Eval.Native.Argument

/-!
# Native members of arrays and functions
-/

namespace ProtoScript

namespace Eval

variable (self : Work → Eval Value)

/-- `len` of arrays. -/
def arrayLength (c : NativeCall) : Eval Value := do
  let a ← arrayReceiver c
  return .int (Int64.ofNat ((← get).heap.elements a).size)

/-- `at` of arrays. -/
def elementAt (c : NativeCall) : Eval Value := do
  let a ← arrayReceiver c
  let index ← indexArgument c 0
  let elements := (← get).heap.elements a
  let i ← resolveIndex c index elements.size
  return elements[i]?.getD .null

/-- `set` of arrays: puts a value at an index, and yields the value. -/
def setElement (c : NativeCall) : Eval Value := do
  let a ← arrayReceiver c
  let index ← indexArgument c 0
  let i ← resolveIndex c index ((← get).heap.elements a).size
  let v := c.argument 1
  modifyHeap fun h => h.modifyArray a fun elements => elements.setIfInBounds i v
  return v

/-- `append` of arrays. -/
def appendElement (c : NativeCall) : Eval Value := do
  let a ← arrayReceiver c
  modifyHeap fun h => h.modifyArray a (·.push (c.argument 0))
  return .null

/-- `clone` of arrays: a new array with the same elements. -/
def cloneArray (c : NativeCall) : Eval Value := do
  let a ← arrayReceiver c
  newArray ((← get).heap.elements a).toList

/-- Calls a function with the elements of an array from an index on, each as it is when its turn
comes; the array may grow meanwhile. At most `fuel` elements are visited. -/
def iterateFrom (callback : Value) (a : ArrayRef) (pos : Position) : Nat → Nat → Eval Value
  | 0, _ => throw .exhausted
  | fuel + 1, i => do
    match ((← get).heap.elements a)[i]? with
    | some v =>
      discard <| self (.call callback none [v] pos)
      iterateFrom callback a pos fuel (i + 1)
    | none => return .null

/-- `iterate` of arrays. -/
def iterate (fuel : Nat) (c : NativeCall) : Eval Value := do
  let a ← arrayReceiver c
  iterateFrom self (c.argument 0) a c.pos fuel 0

/-- `call` of functions: calls what the receiver boxes with the elements of an array. -/
def callFunction (c : NativeCall) : Eval Value := do
  let function ← unwrap c.this
  let arguments ← packedArguments c
  self (.call function none arguments c.pos)

end Eval

end ProtoScript
