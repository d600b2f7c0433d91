import ProtoScript.Heap.Satisfy
import ProtoScript.Heap.Text
import ProtoScript.Machine.Core
import ProtoScript.Machine.Host
import ProtoScript.Machine.Problem
import ProtoScript.Operands

/-!
# The machine

The state of a running program, and computations on it. A computation ends with a value or is
interrupted: by an error, which has been recorded by then; by a `return`, whose value is on top of the
operand stack; by the end of the whole program; by a question that has no answer yet; or because the
bound on the length of the computation was reached. An interruption keeps the state as it is, and
whoever handles it decides what to restore.
-/

namespace ProtoScript

/-- The state of a running program. -/
structure Machine where
  heap : Heap
  scopes : Scopes
  /-- The scope in which names are looked up. -/
  current : ScopeRef
  operands : Operands
  /-- The errors of the statement that is running. -/
  raised : List Diagnostic
  /-- The file that errors are attributed to. -/
  file : String
  /-- How many programs were loaded. -/
  loads : Nat
  host : Host
  events : Array Event
deriving Inhabited

/-- Why a computation did not end with a value. -/
inductive Interruption where
  | raised (d : Diagnostic)
  | returned (pos : Position)
  | exited (code : Int)
  | awaiting (q : Query)
  | exhausted

instance : Inhabited Interruption := ⟨.exhausted⟩

/-- An interruption as it is reported for a file when nothing was recorded about it. -/
def Interruption.diagnostic? (file : String) : Interruption → Option Diagnostic
  | .raised d => some (d.attributedTo file)
  | .returned pos => some (Problem.returnOutside.diagnostic file pos)
  | _ => none

/-- A computation on the machine. -/
abbrev Eval := EStateM Interruption Machine

namespace Machine

/-- The machine before a program of the given file runs. -/
def initial (file : String) (host : Host) : Machine :=
  { heap := coreHeap, scopes := coreScopes, current := Scopes.root, operands := .empty, raised := []
    file, loads := 0, host, events := #[] }

/-- Binds a native function in the root scope. -/
def defineNative (m : Machine) (n : Native) : Machine :=
  { m with scopes := m.scopes.define n.name (.native n) }

/-- Binds the native functions for the console, files and the clock. -/
def withConsole (m : Machine) : Machine :=
  consoleNatives.foldl defineNative m

/-- The type that a variable of the root scope holds. -/
def globalType? (m : Machine) (name : String) : Option ObjectRef :=
  match m.scopes.findLocal? Scopes.root name with
  | some c =>
    match (m.scopes.cell c).value with
    | .object o => if m.heap.isType o then some o else none
    | _ => none
  | none => none

/-- The type of a value: that of a type is `Type`, that of a plain object its parent if that is a type
and `Object` otherwise, and any other value has the type of its name. -/
def runtimeType? (m : Machine) (v : Value) : Option ObjectRef :=
  match v with
  | .object o =>
    if m.heap.isType o then m.globalType? "Type"
    else
      match m.heap.parent? o with
      | some p => if m.heap.isType p then some p else m.globalType? "Object"
      | none => m.globalType? "Object"
  | v => m.globalType? v.typeName

/-- Whether a plain object, whose own type is `Object`, has the members that a structural type
asks for. -/
def fitsShape (m : Machine) (v : Value) (declared actual : ObjectRef) : Bool :=
  match v, (m.heap.object declared).kind with
  | .object o, .type _ false =>
    m.globalType? "Object" == some actual && m.heap.satisfies m.runtimeType? o declared
  | _, _ => false

/-- Whether a value of the given type may be used where another type is declared. -/
def admits (m : Machine) (declared actual : ObjectRef) (v : Value) : Bool :=
  m.heap.accepts m.runtimeType? declared actual || m.fitsShape v declared actual

end Machine

namespace Eval

/-- Records a problem and stops with it. -/
def raise {α : Type} (p : Problem) (pos : Position) : Eval α := do
  let m ← get
  let d := p.diagnostic m.file pos
  set { m with raised := m.raised ++ [d] }
  throw (.raised d)

/-- The outcome of a computation as a value. -/
def observe {α : Type} (x : Eval α) : Eval (Except Interruption α) := fun m =>
  match x m with
  | .ok a m => .ok (.ok a) m
  | .error e m => .ok (.error e) m

/-- Changes the heap. -/
def modifyHeap (f : Heap → Heap) : Eval Unit :=
  modify fun m => { m with heap := f m.heap }

/-- Applies a function of the heap that also adds something to it. -/
def withHeap {α : Type} (f : Heap → α × Heap) : Eval α :=
  modifyGet fun m =>
    let (a, heap) := f m.heap
    (a, { m with heap })

/-- A new object. -/
def newObject (o : Object) : Eval ObjectRef :=
  withHeap (·.addObject o)

/-- A new array. -/
def newArray (elements : List Value) : Eval Value := do
  return .array (← withHeap (·.addArray elements.toArray))

/-- What is in the innermost box. -/
def unwrap (v : Value) : Eval Value := do
  return (← get).heap.unwrap v

/-- A value as it is shown in a message. -/
def inspect (v : Value) : Eval String := do
  return (← get).heap.inspect v

/-- Gives a member of an object a value. -/
def assignMember (o : ObjectRef) (name : String) (v : Value) : Eval Unit :=
  modifyHeap fun h => h.modifyObject o (·.assign name v)

/-- Opens a scope inside the current one. -/
def openScope : Eval Unit :=
  modify fun m =>
    let (current, scopes) := m.scopes.addChild m.current
    { m with current, scopes }

/-- Goes back to the scope around the current one. -/
def closeScope (pos : Position) : Eval Unit := do
  let m ← get
  if m.current = Scopes.root then raise .rootScopeClosed pos
  else
    match m.scopes.parent? m.current with
    | some current => set { m with current }
    | none => raise .rootScopeClosed pos

/-- Closes scopes until the given one is the current one, for at most `fuel` scopes. -/
def closeUntil (target : ScopeRef) (pos : Position) : Nat → Eval Unit
  | 0 => return ()
  | fuel + 1 => do
    unless (← get).current = target do
      closeScope pos
      closeUntil target pos fuel

/-- The value of a variable. -/
def lookupVariable (name : String) (pos : Position) : Eval Value := do
  let m ← get
  match m.scopes.find? m.current name with
  | some c => return (m.scopes.cell c).value
  | none => raise (.undefinedVariable name) pos

/-- Declares a variable in the current scope. -/
def declare (name : String) (type : Option ObjectRef) (pos : Position) : Eval CellRef := do
  let m ← get
  match m.scopes.findLocal? m.current name with
  | some _ => raise (.alreadyDefined name) pos
  | none =>
    modifyGet fun m =>
      let (c, scopes) := m.scopes.bind m.current name type
      (c, { m with scopes })

/-- Puts a value into a cell. -/
def putCell (c : CellRef) (v : Value) : Eval Unit :=
  modify fun m => { m with scopes := m.scopes.put c v }

/-- Puts a value on top of the operand stack. -/
def pushOperand (v : Value) : Eval Unit :=
  modify fun m => { m with operands := m.operands.push v }

/-- Takes the top value off the operand stack. -/
def popOperand (pos : Position) : Eval Value := do
  let m ← get
  match m.operands.pop? with
  | some (v, operands) =>
    set { m with operands }
    return v
  | none => raise .operandsExhausted pos

/-- Drops the operands above a height. -/
def unwindTo (height : Nat) : Eval Unit :=
  modify fun m => { m with operands := m.operands.unwindTo height }

/-- The type of a value. -/
def runtimeType? (v : Value) : Eval (Option ObjectRef) := do
  return (← get).runtimeType? v

/-- Makes sure that a value may be used where the given type is declared. -/
def typecheck (v : Value) (declared : ObjectRef) (pos : Position) : Eval Unit := do
  let m ← get
  match m.runtimeType? v with
  | none => raise (.noTypeFor (m.heap.inspect v)) pos
  | some actual =>
    unless m.admits declared actual v do
      raise (.typeMismatch (m.heap.typeLabel declared) (m.heap.typeLabel actual)) pos

/-- A member of an object, its own or an inherited one. -/
def member (o : ObjectRef) (name : String) (pos : Position) : Eval Value := do
  let m ← get
  match m.heap.lookup? o name with
  | some v => return v
  | none => raise (.noMember (m.heap.inspect (.object o)) name) pos

/-- Asks the host. -/
def ask (q : Query) : Eval Answer := do
  let m ← get
  match m.host.answer? q with
  | some (a, host) =>
    set { m with host }
    return a
  | none => throw (.awaiting q)

/-- Tries to show a text on the standard output. A text that cannot be shown leaves no event. -/
def offer (text : String) : Eval (Except FileError Unit) :=
  modifyGet fun m =>
    let (result, host) := m.host.nextOutcome
    match result with
    | .ok () => (.ok (), { m with host, events := m.events.push (.out text) })
    | .error e => (.error e, { m with host })

/-- Shows a text on the standard output. -/
def emit (text : String) (pos : Position) : Eval Unit := do
  match ← offer text with
  | .ok () => return ()
  | .error e => raise (.cannotShow e) pos

/-- Runs a computation for as long as a condition holds, at most `fuel` times. -/
def whileTrue (condition : Eval Bool) (body : Eval Unit) : Nat → Eval Unit
  | 0 => throw .exhausted
  | fuel + 1 => do
    if ← condition then
      body
      whileTrue condition body fuel
    else return ()

end Eval

end ProtoScript
