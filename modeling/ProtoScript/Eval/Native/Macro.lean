import ProtoScript.Eval.Native.Argument
import ProtoScript.Grammar.Read
import ProtoScript.Program.Load

/-!
# Macros

A macro is an object that holds a function. Calling it calls the function, and if that yields a text,
the text is read as a program and run in the scope of the caller, so that what it declares stays
visible there.
-/

namespace ProtoScript

namespace Eval

variable (self : Work → Eval Value)

/-- Asks the host for files and, in turn, for those that they import; each path is asked for once. -/
def gather : Nat → List String → List (String × Except FileError String) →
    Eval (List (String × Except FileError String))
  | 0, _, _ => throw .exhausted
  | _ + 1, [], known => return known
  | fuel + 1, path :: paths, known => do
    if known.any fun entry => entry.1 == path then gather fuel paths known
    else
      match ← ask (.readFile path) with
      | .contents (.ok text) =>
        gather fuel (paths ++ importedPaths (scan text)) ((path, .ok text) :: known)
      | .contents (.error e) => gather fuel paths ((path, .error e) :: known)
      | _ => gather fuel paths ((path, .error .notFound) :: known)

/-- The files that a program may import: all of a simulated world, or those that the given paths lead
to. -/
def library (fuel : Nat) (paths : List String) : Eval Library := do
  match (← get).host.world with
  | .simulated s => return s.files.library
  | .replayed _ =>
    let known ← gather fuel paths []
    let size := known.foldl (fun total entry =>
      match entry.2 with
      | .ok text => total + text.length
      | .error _ => total) 0
    return ⟨fun path => ((known.find? fun entry => entry.1 == path).map (·.2)).getD (.error .notFound),
      size⟩

/-- Reads a program from a text of the given file. -/
def readText (fuel : Nat) (file : String) (imports : List String) (source : String) :
    Eval Reading := do
  let files ← library fuel (imports ++ importedPaths (scan source))
  return readProgram files file imports source

/-- Prepares statements that were read for running. -/
def load (statements : List Statement) : Eval (List Statement) := do
  let n := (← get).loads
  modify fun m => { m with loads := n + 1 }
  return loadProgram n statements

/-- Runs statements in the current scope, and yields the value of the last one. -/
def runForValue (last : Value) : List Statement → Eval Value
  | [] => return last
  | s :: ss => do
    let v ← self (.statement s)
    runForValue v ss

/-- Reads a text as a program and runs it right here. Nothing of it is run if it has an error. -/
def expand (fuel : Nat) (source : String) (pos : Position) : Eval Value := do
  let reading ← readText fuel (← get).file [] source
  if reading.errors.isEmpty then
    runForValue self .null (← load reading.statements)
  else raise (.expansionFailed (reading.errors.map (·.render))) pos

/-- The member of a macro that holds its function. -/
def macroFunction : String := "function"

/-- `construct` of macros: stores a function. -/
def constructMacro (c : NativeCall) : Eval Value := do
  let this ← receiver c
  match ← unwrap (c.argument 0) with
  | .procedure p =>
    assignMember this macroFunction (.procedure p)
    return .null
  | .native n =>
    assignMember this macroFunction (.native n)
    return .null
  | other => raise (.notAMacroBody other.typeName) c.pos

/-- `call` of macros: calls the function for the macro itself, and expands what it yields if that is a
text. -/
def callMacro (fuel : Nat) (c : NativeCall) : Eval Value := do
  let this ← receiver c
  let arguments ← packedArguments c
  let function ← member this macroFunction c.pos
  let result ← self (.call function (some this) arguments c.pos)
  match ← unwrap result with
  | .text source => expand self fuel source c.pos
  | _ => return result

/-- `expand` of macros, and `macro_expand`: expands the first argument. -/
def expandArgument (fuel : Nat) (c : NativeCall) : Eval Value := do
  match ← unwrap (c.argument 0) with
  | .text source => expand self fuel source c.pos
  | _ => raise .notExpandable c.pos

end Eval

end ProtoScript
