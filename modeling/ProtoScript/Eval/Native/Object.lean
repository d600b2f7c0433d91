import ProtoScript.Eval.Arithmetic
import ProtoScript.Eval.Native.Argument
import ProtoScript.Heap.Combine

/-!
# Native members of objects and types
-/

namespace ProtoScript

namespace Eval

variable (self : Work → Eval Value)

/-- `new`: an instance of the receiver. -/
def newInstance (c : NativeCall) : Eval Value := do
  let type ← receiver c
  return .object (← construct self type c.arguments c.pos)

/-- `type`: the type of the receiver, or null if it has none. -/
def typeOf (c : NativeCall) : Eval Value := do
  match ← runtimeType? c.this with
  | some t => return .object t
  | none => return .null

/-- The texts of the elements of an array; texts among them stand between quotes. -/
def elementTexts (pos : Position) : List Value → Eval (List String)
  | [] => return []
  | v :: vs => do
    let first ←
      match ← unwrap v with
      | .text s => pure ("\"" ++ s ++ "\"")
      | _ => stringify self v pos
    return first :: (← elementTexts pos vs)

/-- `to_str`: the receiver as text. The elements of an array are asked for theirs. -/
def toText (c : NativeCall) : Eval Value := do
  match ← unwrap c.this with
  | .array a =>
    let texts ← elementTexts self c.pos ((← get).heap.elements a).toList
    return .text ("[" ++ ", ".intercalate texts ++ "]")
  | other => return .text ((← get).heap.text other)

/-- Whether a value becomes a method when a type is extended. -/
def isMethod : Value → Bool
  | .procedure _ | .native _ => true
  | _ => false

/-- The members of an extension that satisfy a condition. -/
def selectMembers (p : Value → Bool) (m : Members) : Members :=
  ⟨m.entries.filter fun entry => p entry.2⟩

/-- `extend`: from a plain object, a copy with more members. From a type, a new structural type that
inherits from it; functions become members of the type, everything else goes into its template. -/
def extendBy (c : NativeCall) : Eval Value := do
  let this ← receiver c
  let properties ← objectArgument c 0 "an object of properties"
  let members := ((← get).heap.object properties).members
  if (← get).heap.isType this then
    let template ←
      match (← get).heap.lookup? this "instance" with
      | some (.object t) => withHeap (·.copy t none)
      | _ => newObject (.plain none .empty)
    modifyHeap fun h => h.modifyObject template fun o =>
      { o with members := o.members.insertAll (selectMembers (fun v => !isMethod v) members) }
    let methods := (selectMembers isMethod members).insert "instance" (.object template)
    return .object (← newObject (.type "" (some this) methods false))
  else
    let copy ← withHeap (·.copy this none)
    modifyHeap fun h => h.modifyObject copy fun o => { o with members := o.members.insertAll members }
    return .object copy

/-- `patch`: gives the receiver the members of another object. -/
def patchFrom (c : NativeCall) : Eval Value := do
  let this ← receiver c
  let source ← objectArgument c 0 "an object to patch from"
  let members := ((← get).heap.object source).members
  modifyHeap fun h => h.modifyObject this fun o => { o with members := o.members.insertAll members }
  return .object this

/-- `satisfies`: whether the receiver satisfies a type. -/
def satisfiesType (c : NativeCall) : Eval Value := do
  let this ← receiver c
  let required ← objectArgument c 0 "a type or object to satisfy"
  let m ← get
  return .truth (m.heap.satisfies m.runtimeType? this required)

/-- `compare`: whether the receiver equals a value. -/
def compareTo (c : NativeCall) : Eval Value := do
  return .truth ((← unwrap c.this).equals (← unwrap (c.argument 0)))

/-- `not`: whether the receiver counts as false. -/
def negate (c : NativeCall) : Eval Value := do
  return .truth (!(← isTrue self c.this c.pos))

/-- `and` and `or`: both operands are always asked. -/
def combineTruth (f : Bool → Bool → Bool) (c : NativeCall) : Eval Value := do
  let left ← isTrue self c.this c.pos
  let right ← isTrue self (c.argument 0) c.pos
  return .truth (f left right)

/-- `property`: the type of a property of the receiver, or null if it has none. -/
def propertyOf (c : NativeCall) : Eval Value := do
  let this ← receiver c
  match ← unwrap (c.argument 0) with
  | .text name =>
    let resolve := (← get).runtimeType?
    match ← withHeap (·.property resolve this name) with
    | some t => return .object t
    | none => return .null
  | other => raise (.expectedPropertyName other.typeName) c.pos

end Eval

end ProtoScript
