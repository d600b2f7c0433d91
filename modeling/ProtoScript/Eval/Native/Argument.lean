import ProtoScript.Eval.Message

/-!
# The arguments of native functions

What a native function is handed, and the ways in which native functions look at it.
-/

namespace ProtoScript

/-- A call of a native function: the receiver if it is called as a member, the arguments, and the
place of the call. -/
structure NativeCall where
  receiver : Option ObjectRef
  arguments : List Value
  pos : Position

namespace NativeCall

/-- An argument; one that is missing is null. -/
def argument (c : NativeCall) (i : Nat) : Value :=
  c.arguments[i]?.getD .null

/-- The receiver as a value; a missing one is null. -/
def this (c : NativeCall) : Value :=
  match c.receiver with
  | some o => .object o
  | none => .null

end NativeCall

namespace Eval

/-- The receiver, which has to be there. -/
def receiver (c : NativeCall) : Eval ObjectRef :=
  match c.receiver with
  | some o => return o
  | none => raise .noReceiver c.pos

/-- An argument that has to be an object. -/
def objectArgument (c : NativeCall) (i : Nat) (what : String) : Eval ObjectRef :=
  match c.argument i with
  | .object o => return o
  | other => raise (.expectedObject what other.typeName) c.pos

/-- An argument that has to be an integer. -/
def indexArgument (c : NativeCall) (i : Nat) : Eval Int64 := do
  match ← unwrap (c.argument i) with
  | .int n => return n
  | other => raise (.expectedIndex other.typeName) c.pos

/-- An argument that has to be a text. -/
def textArgument (c : NativeCall) (i : Nat) : Eval String := do
  match ← unwrap (c.argument i) with
  | .text s => return s
  | other => raise (.expectedText other.typeName) c.pos

/-- The elements of the first argument, which has to be an array. -/
def packedArguments (c : NativeCall) : Eval (List Value) := do
  match ← unwrap (c.argument 0) with
  | .array a => return ((← get).heap.elements a).toList
  | other => raise (.expectedArguments other.typeName) c.pos

/-- The array that the receiver boxes. -/
def arrayReceiver (c : NativeCall) : Eval ArrayRef := do
  match ← unwrap c.this with
  | .array a => return a
  | other => raise (.expectedArray other.typeName) c.pos

/-- The text that the receiver boxes. -/
def textReceiver (c : NativeCall) : Eval String := do
  match ← unwrap c.this with
  | .text s => return s
  | other => raise (.expectedText other.typeName) c.pos

/-- The position that an index addresses in a sequence of the given length: negative indices count
from the end. -/
def position? (index : Int64) (length : Nat) : Option Nat :=
  let i := index.toInt
  let resolved := if i < 0 then i + length else i
  if 0 ≤ resolved ∧ resolved < length then some resolved.toNat else none

/-- The position that an index addresses, which has to be in range. -/
def resolveIndex (c : NativeCall) (index : Int64) (length : Nat) : Eval Nat :=
  match position? index length with
  | some i => return i
  | none => raise (.indexOutOfRange index.toInt length) c.pos

end Eval

end ProtoScript
