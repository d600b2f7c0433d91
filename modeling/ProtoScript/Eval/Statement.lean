import ProtoScript.Eval.Expression

/-!
# Running statements

Only expressions, declarations, macros and imports have a value of their own; any other statement
yields null.
-/

namespace ProtoScript

namespace Eval

variable (self : Work → Eval Value)

/-- Runs a block in a scope of its own. -/
def runBlock (b : Block) : Eval Unit := do
  openScope
  runStatements self b.statements
  closeScope b.pos

/-- Whether the value of an expression counts as true. -/
def holds (e : Expression) : Eval Bool := do
  isTrue self (← self (.expression e)) e.pos

/-- Runs the first branch whose condition holds, or else the block that is left over. -/
def runBranches (otherwise : Option Block) : List Branch → Eval Unit
  | [] =>
    match otherwise with
    | some b => runBlock self b
    | none => return ()
  | b :: bs => do
    if ← holds self b.condition then runBlock self b.body
    else runBranches otherwise bs

/-- Runs the statements of an import, going on after those that fail: their errors are recorded, and
the scope and the operands are restored. -/
def runImported (scope : ScopeRef) (height : Nat) (last : Value) : List Statement → Eval Value
  | [] => return last
  | s :: ss => do
    match ← observe (self (.statement s)) with
    | .ok v => runImported scope height v ss
    | .error (.raised _) =>
      modify fun m => { m with current := scope }
      unwindTo height
      runImported scope height last ss
    | .error e => throw e

/-- Runs an import. While it runs, errors are attributed to the imported file. -/
def runImport (file : String) (statements : List Statement) : Eval Value := do
  let importer := (← get).file
  let scope := (← get).current
  let height := (← get).operands.height
  modify fun m => { m with file }
  let outcome ← observe (runImported self scope height .null statements)
  modify fun m => { m with file := importer }
  match outcome with
  | .ok v => return v
  | .error e => throw e

/-- Defines a macro: a new instance of `Macro`, made from a procedure. -/
def runMacroDefinition (name : String) (body : Procedure) (pos : Position) : Eval Value := do
  let type ← lookupVariable "Macro" pos
  let made ← send self type "new" [.procedure body] pos
  let c ← declare name none pos
  putCell c made
  return made

/-- Runs a statement. A loop is cut off after `fuel` rounds. -/
def runStatement (fuel : Nat) (s : Statement) : Eval Value := do
  match s with
  | .expression e => self (.expression e)
  | .declare d => runDeclaration self d
  | .block b =>
    runBlock self b
    return .null
  | .ifElse branches otherwise _ =>
    runBranches self otherwise branches
    return .null
  | .whileDo condition body _ =>
    whileTrue (holds self condition) (runBlock self body) fuel
    return .null
  | .forIn _ iterable body pos =>
    let v ← self (.expression iterable)
    discard <| send self v "iterate" [.procedure body] pos
    return .null
  | .returnWith e pos =>
    pushOperand (← self (.expression e))
    throw (.returned pos)
  | .importFile _ file statements _ => runImport self file statements
  | .defineMacro name body pos => runMacroDefinition self name body pos
  | .empty _ => return .null

end Eval

end ProtoScript
