import ProtoScript.Eval.Message

/-!
# Calls

A procedure is called in three steps: the types of its parameters are evaluated and checked against
the arguments; the arguments are pushed on the operand stack; and in a new scope, whose parent is the
scope of the caller, the parameters are bound to them and the body is run. However the body ends, the
caller finds its scope and its operands as they were.
-/

namespace ProtoScript

namespace Eval

variable (self : Work → Eval Value)

/-- Checks arguments against the declared types of parameters, and yields these types. -/
def checkFixed (pos : Position) : List Parameter → List Value → Eval (List (Option ObjectRef))
  | p :: ps, v :: vs => do
    match p.type with
    | some e =>
      let type ← evaluateType self e
      typecheck v type pos
      return some type :: (← checkFixed pos ps vs)
    | none => return none :: (← checkFixed pos ps vs)
  | _, _ => return []

/-- Checks several arguments against one type. -/
def checkAll (type : ObjectRef) (pos : Position) : List Value → Eval Unit
  | [] => return ()
  | v :: vs => do
    typecheck v type pos
    checkAll type pos vs

/-- Checks arguments against the parameters of a procedure, and yields the types of the fixed
ones. -/
def checkArguments (p : Procedure) (arguments : List Value) (pos : Position) :
    Eval (List (Option ObjectRef)) := do
  let types ← checkFixed self pos p.fixed arguments
  match p.rest.bind (·.type) with
  | some e =>
    let type ← evaluateType self e
    checkAll type pos (arguments.drop types.length)
  | none => pure ()
  return types

/-- Takes values off the operand stack and puts them before others; the one that was pushed first comes
first. -/
def popOperands (pos : Position) : Nat → List Value → Eval (List Value)
  | 0, others => return others
  | n + 1, others => do
    let last ← popOperand pos
    popOperands pos n (last :: others)

/-- Binds fixed parameters, given from last to first as the operands come off the stack. -/
def bindFixed (pos : Position) : List (Parameter × Option ObjectRef) → Eval Unit
  | [] => return ()
  | (p, type) :: ps => do
    let v ← popOperand pos
    let c ← declare p.name type p.pos
    putCell c v
    bindFixed pos ps

/-- Binds the parameters of a procedure to the operands. Those beyond the fixed ones are collected in
a new array. -/
def bindParameters (p : Procedure) (count : Nat) (types : List (Option ObjectRef))
    (pos : Position) : Eval Unit := do
  match p.rest with
  | some rest =>
    let values ← popOperands pos (count - p.fixed.length) []
    let c ← declare rest.name none rest.pos
    putCell c (← newArray values)
  | none => pure ()
  bindFixed pos (p.fixed.zip types).reverse

/-- Runs statements in the current scope. -/
def runStatements : List Statement → Eval Unit
  | [] => return ()
  | s :: ss => do
    discard <| self (.statement s)
    runStatements ss

/-- What is done inside the scope of a procedure: its parameters are bound and its body is run. -/
def activation (p : Procedure) (count : Nat) (types : List (Option ObjectRef)) (pos : Position) :
    Eval Unit := do
  bindParameters p count types pos
  runStatements self p.body.statements

/-- Runs a procedure whose arguments are on the operand stack, and yields its result. A body that ends
without `return` yields zero. -/
def enter (p : Procedure) (count : Nat) (types : List (Option ObjectRef)) (height : Nat)
    (pos : Position) : Eval Value := do
  let caller := (← get).current
  openScope
  let inside := (← get).current
  match ← observe (activation self p count types pos) with
  | .ok _ =>
    closeScope pos
    pushOperand (.int 0)
    popOperand pos
  | .error (.returned _) =>
    closeUntil inside pos ((← get).current.index + 1)
    closeScope pos
    popOperand pos
  | .error e =>
    modify fun m => { m with current := caller }
    unwindTo height
    throw e

/-- Calls a procedure. A receiver is its first argument. -/
def callProcedure (p : Procedure) (receiver : Option ObjectRef) (arguments : List Value)
    (pos : Position) : Eval Value := do
  let values := (receiver.map Value.object).toList ++ arguments
  if p.accepts values.length then
    let types ← checkArguments self p values pos
    let height := (← get).operands.height
    modify fun m => { m with operands := m.operands.pushAll values }
    enter self p values.length types height pos
  else raise (.argumentCount p.rest.isSome p.fixed.length values.length) pos

/-- Calls something that is no function: an object is sent `call` with the arguments in one array, and
anything else is boxed first. -/
def callOther (v : Value) (receiver : Option ObjectRef) (arguments : List Value) (pos : Position) :
    Eval Value := do
  match v with
  | .object o =>
    let h := (← get).heap
    match h.lookup? o "call" with
    | some function =>
      let packed ← newArray arguments
      self (.call function (some o) [packed] pos)
    | none => raise (.notCallable (h.inspect v)) pos
  | _ =>
    let o ← box self v pos
    self (.call (.object o) receiver arguments pos)

end Eval

end ProtoScript
