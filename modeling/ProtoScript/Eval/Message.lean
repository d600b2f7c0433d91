import ProtoScript.Heap.Copy
import ProtoScript.Machine.Basic

/-!
# Messages

Everything that a value can do is a member of it, found along its lineage. Scalars are boxed first: a
box is an instance of the type of the scalar. What a program does is given by the function `self`,
which does a piece of work; it is passed along, so that each rule can be read, and reasoned about, by
itself.
-/

namespace ProtoScript

/-- A piece of work for the evaluator. -/
inductive Work where
  /-- To run a statement. -/
  | statement (s : Statement)
  /-- To evaluate an expression. -/
  | expression (e : Expression)
  /-- To call a value, for a receiver if there is one. -/
  | call (function : Value) (receiver : Option ObjectRef) (arguments : List Value) (pos : Position)

namespace Eval

variable (self : Work → Eval Value)

/-- A new instance of a type: a copy of its template, which has the type as its parent, handed to the
constructor if the type has one. What the constructor yields is ignored. -/
def construct (type : ObjectRef) (arguments : List Value) (pos : Position) : Eval ObjectRef := do
  let h := (← get).heap
  match h.lookup? type "instance" with
  | some (.object template) =>
    let made ← withHeap (·.copy template (some type))
    match (← get).heap.lookup? type "construct" with
    | some (.native n) => discard <| self (.call (.native n) (some made) arguments pos)
    | some (.procedure p) => discard <| self (.call (.procedure p) (some made) arguments pos)
    | some other => raise (.badConstructor (← inspect other)) pos
    | none => pure ()
    return made
  | _ => raise (.noTemplate (h.typeLabel type)) pos

/-- The object that stands for a value: an object itself, or a new box. -/
def box (v : Value) (pos : Position) : Eval ObjectRef := do
  match v with
  | .object o => return o
  | _ =>
    match ← runtimeType? v with
    | some type => construct self type [v] pos
    | none => raise (.noTypeFor (← inspect v)) pos

/-- Sends a message to a value. -/
def send (receiver : Value) (method : String) (arguments : List Value) (pos : Position) :
    Eval Value := do
  let o ← box self receiver pos
  let function ← member o method pos
  self (.call function (some o) arguments pos)

/-- Whether a value counts as true, which it says itself when it is sent `bool`. -/
def isTrue (v : Value) (pos : Position) : Eval Bool := do
  match ← unwrap (← send self v "bool" [] pos) with
  | .int i => return i != 0
  | .bool b => return b
  | other => raise (.badTruth other.typeName) pos

/-- The text of a value, which it says itself when it is sent `to_str`. -/
def stringify (v : Value) (pos : Position) : Eval String := do
  match ← unwrap (← send self v "to_str" [] pos) with
  | .text s => return s
  | other => return (← get).heap.text other

/-- The type that an expression denotes. -/
def evaluateType (e : Expression) : Eval ObjectRef := do
  let v ← self (.expression e)
  let h := (← get).heap
  match v with
  | .object o => if h.isType o then return o else raise (.notAType (h.inspect v)) e.pos
  | _ => raise (.notAType (h.inspect v)) e.pos

/-- The values of arguments; one that is spread stands for the elements of an array. -/
def evaluateArguments : List Expression → Eval (List Value)
  | [] => return []
  | .splat e pos :: es => do
    match ← unwrap (← self (.expression e)) with
    | .array a =>
      let first := ((← get).heap.elements a).toList
      return first ++ (← evaluateArguments es)
    | other => raise (.cannotSpread other.typeName) pos
  | e :: es => do
    let first ← self (.expression e)
    return first :: (← evaluateArguments es)

/-- Sends a message to the value of an expression. The receiver is evaluated and boxed, and the member
found, before the arguments are evaluated. -/
def sendTo (target : Expression) (method : String) (arguments : List Expression) (pos : Position) :
    Eval Value := do
  let o ← box self (← self (.expression target)) pos
  let function ← member o method pos
  let values ← evaluateArguments self arguments
  self (.call function (some o) values pos)

end Eval

end ProtoScript
