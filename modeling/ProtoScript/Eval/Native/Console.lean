import ProtoScript.Eval.Native.Argument

/-!
# Native functions for the console, files and the clock
-/

namespace ProtoScript

namespace Eval

variable (self : Work → Eval Value)

/-- The texts of several values. -/
def stringifyAll (pos : Position) : List Value → Eval (List String)
  | [] => return []
  | v :: vs => do
    let first ← stringify self v pos
    return first :: (← stringifyAll pos vs)

/-- The texts of the arguments with spaces between them. -/
def argumentText (c : NativeCall) : Eval String := do
  return " ".intercalate (← stringifyAll self c.pos c.arguments)

/-- `print`: shows the arguments as a line. -/
def print (c : NativeCall) : Eval Value := do
  emit ((← argumentText self c) ++ "\n") c.pos
  return .null

/-- `write`: shows the arguments. -/
def write (c : NativeCall) : Eval Value := do
  emit (← argumentText self c) c.pos
  return .null

/-- A line without the characters that end it. -/
def withoutLineEnd (line : String) : String :=
  String.ofList (line.toList.reverse.dropWhile (fun c => c == '\n' || c == '\r')).reverse

/-- `input`: shows the arguments and reads a line. -/
def input (c : NativeCall) : Eval Value := do
  emit (← argumentText self c) c.pos
  match ← ask .readLine with
  | .line (.ok text) => return .text (withoutLineEnd text)
  | .line (.error e) => raise (.cannotReadInput e) c.pos
  | _ => return .text ""

/-- `read_file`: the text of a file. -/
def readFile (c : NativeCall) : Eval Value := do
  let path ← textArgument c 0
  match ← ask (.readFile path) with
  | .contents (.ok text) => return .text text
  | .contents (.error e) => raise (.cannotOpen path e) c.pos
  | _ => return .null

/-- `write_file`: makes the text of a value the contents of a file. -/
def writeFile (c : NativeCall) : Eval Value := do
  let path ← textArgument c 0
  let contents ← stringify self (c.argument 1) c.pos
  match ← ask (.writeFile path contents) with
  | .written (.error e) => raise (.cannotWrite path e) c.pos
  | _ => return .null

/-- `now`: the time, in seconds. -/
def now : Eval Value := do
  match ← ask .time with
  | .time seconds => return .float seconds
  | _ => return .null

/-- `sleep`: lets some seconds pass.

A pause of 2^64 seconds or more, such as `sleep(1.0e300)`, is longer than can be told to the system: a
run panics over it and ends. It is no error of the program, and is not told apart here from a pause that
is merely very long. -/
def sleep (c : NativeCall) : Eval Value := do
  let v ← unwrap (c.argument 0)
  let seconds ←
    match v with
    | .int i => if i ≥ 0 then pure (Number.ofInt64 i) else raise (.cannotSleep (← inspect v)) c.pos
    | .float x =>
      if x ≥ 0.0 && x.isFinite then pure x else raise (.cannotSleep (← inspect v)) c.pos
    | _ => raise (.cannotSleep (← inspect v)) c.pos
  discard <| ask (.pause seconds)
  return .null

/-- `exit`: ends the whole program. The exit code has to fit into 32 bits. -/
def exit (c : NativeCall) : Eval Value := do
  match ← unwrap (c.argument 0) with
  | .int i =>
    if -2147483648 ≤ i.toInt ∧ i.toInt ≤ 2147483647 then throw (.exited i.toInt)
    else raise (.exitCodeOutOfRange i.toInt) c.pos
  | .null => throw (.exited 0)
  | other => raise (.badExitCode (← inspect other)) c.pos

/-- The code of a foreground color on a terminal. -/
def colorCode? : String → Option Nat
  | "black" => some 30
  | "red" => some 31
  | "green" => some 32
  | "yellow" => some 33
  | "blue" => some 34
  | "magenta" => some 35
  | "cyan" => some 36
  | "white" => some 37
  | _ => none

/-- `color`: the text of a value between the codes that turn a color on and off. -/
def color (c : NativeCall) : Eval Value := do
  let name ← textArgument c 0
  let text ← stringify self (c.argument 1) c.pos
  match colorCode? name with
  | some code => return .text ("\x1b[" ++ toString code ++ "m" ++ text ++ "\x1b[0m")
  | none => raise (.unknownColor name) c.pos

end Eval

end ProtoScript
