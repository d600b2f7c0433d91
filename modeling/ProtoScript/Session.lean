import ProtoScript.Eval.Run

/-!
# Sessions

A program is run statement by statement. A statement that fails is given up, and the next one starts
with the root scope and an empty operand stack all the same.
-/

namespace ProtoScript

namespace Session

/-- Why a session stops before its end. -/
inductive Stop where
  | exited (code : Int)
  | awaiting (q : Query)
  | exhausted

/-- A computation of a session; what can fail in it does so with diagnostics. -/
abbrev SessionM := EStateM Stop Machine

/-- Runs a computation of the evaluator. Its errors are left to the session; what ends the session is
passed on. -/
def observe {α : Type} (x : Eval α) : SessionM (Except Interruption α) := fun m =>
  match x m with
  | .ok a m => .ok (.ok a) m
  | .error (.exited code) m => .error (.exited code) m
  | .error (.awaiting q) m => .error (.awaiting q) m
  | .error .exhausted m => .error .exhausted m
  | .error e m => .ok (.error e) m

/-- A `return` that leaves no procedure is an error: the value that it returned is dropped. -/
def refuseReturn (x : Eval Value) : Eval Value := do
  match ← Eval.observe x with
  | .ok v => return v
  | .error (.returned pos) =>
    modify fun m => { m with operands := (m.operands.pop?.map (·.2)).getD m.operands }
    Eval.raise .returnOutside pos
  | .error e => throw e

/-- Runs one statement: its value, or the errors that were raised. -/
def execute (fuel : Nat) (s : Statement) : SessionM (Except (List Diagnostic) Value) := do
  modify fun m => { m with raised := [] }
  let height := (← get).operands.height
  let outcome ← observe (refuseReturn (Eval.run fuel (.statement s)))
  match outcome with
  | .ok _ => pure ()
  | .error _ =>
    modify fun m =>
      { m with current := Scopes.root, operands := m.operands.unwindTo height }
  let errors := (← get).raised
  modify fun m => { m with raised := [] }
  match outcome, errors with
  | .ok v, [] => return .ok v
  | .error e, [] => return .error ((e.diagnostic? (← get).file).toList)
  | _, errors => return .error errors

/-- Runs statements, going on after those that fail: the value of the last one, or all the errors. -/
def runAll (fuel : Nat) (statements : List Statement) :
    SessionM (Except (List Diagnostic) Value) :=
  go .null [] statements
where
  /-- Runs the statements that are left, after the given value and errors. -/
  go (last : Value) (errors : List Diagnostic) :
      List Statement → SessionM (Except (List Diagnostic) Value)
    | [] => return if errors.isEmpty then .ok last else .error errors
    | s :: ss => do
      match ← execute fuel s with
      | .ok v => go v errors ss
      | .error es => go last (errors ++ es) ss

/-- Reads a program and prepares it for running, or yields its errors. -/
def readAndLoad (fuel : Nat) (file : String) (imports : List String) (source : String) :
    SessionM (Except (List Diagnostic) (List Statement)) := do
  let outcome ← observe do
    let reading ← Eval.readText fuel file imports source
    if reading.errors.isEmpty then return .ok (← Eval.load reading.statements)
    else return .error reading.errors
  match outcome with
  | .ok r => return r
  | .error e => return .error ((e.diagnostic? file).toList)

/-- Runs a source text: the value of its last statement, or the errors. -/
def runSource (fuel : Nat) (file source : String) : SessionM (Except (List Diagnostic) Value) := do
  match ← readAndLoad fuel file [] source with
  | .ok statements => runAll fuel statements
  | .error errors => return .error errors

/-- The text that a value is shown as, if it can say it. -/
def shown? (fuel : Nat) (v : Value) : SessionM (Option String) := do
  match ← observe (Eval.stringify (Eval.run fuel) v .outside) with
  | .ok s => return some s
  | .error _ => return none

end Session

end ProtoScript
