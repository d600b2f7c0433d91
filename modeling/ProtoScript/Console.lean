import ProtoScript.Session

/-!
# The command line

Without arguments, lines are read and run one after the other; with one argument, that file is run.
Everything that is shown is recorded as events, and everything that has to be known is asked of the
host, so that the whole run is a function of the answers.
-/

namespace ProtoScript

namespace Console

open Session

/-- The environment variable that names files to import ahead of a script. -/
def preludeVariable : String := "PEACH_PRELUDE"

/-- The paths in the value of that variable, which has colons between them. -/
def preludePaths (value : Option String) : List String :=
  ((value.getD "").splitOn ":").filter (· != "")

/-- Shows a text of the prompt itself on the standard output. The prompt does not survive an output
that fails, so there is no error to go on with. -/
def showText (text : String) : SessionM Unit :=
  modify fun m => { m with events := m.events.push (.prompt text) }

/-- Shows a text on the standard error output. -/
def complain (text : String) : SessionM Unit :=
  modify fun m => { m with events := m.events.push (.err text) }

/-- Shows errors on the standard error output, one on a line. -/
def report (errors : List Diagnostic) : SessionM Unit :=
  errors.forM fun d => complain (d.render ++ "\n")

/-- Runs statements, reporting the errors of each one at once, and tells whether there were none. -/
def runReporting (fuel : Nat) : List Statement → SessionM Bool
  | [] => return true
  | s :: ss => do
    match ← execute fuel s with
    | .ok _ => runReporting fuel ss
    | .error errors =>
      report errors
      discard <| runReporting fuel ss
      return false

/-- Runs a script, and tells whether everything succeeded. Nothing is run if it cannot be read. -/
def runScript (fuel : Nat) (path : String) (imports : List String) : SessionM Bool := do
  match ← observe (Eval.ask (.readFile path)) with
  | .ok (.contents (.ok source)) =>
    match ← readAndLoad fuel path imports source with
    | .ok statements => runReporting fuel statements
    | .error errors =>
      report errors
      return false
  | .ok (.contents (.error e)) =>
    report [(Problem.cannotOpen path e).diagnostic path .outside]
    return false
  | _ => return false

/-- The name of the file that errors in lines are attributed to. -/
def promptFile : String := "<stdin>"

/-- Runs a text that was entered, and shows its value unless that is null. -/
def respond (fuel : Nat) (source : String) : SessionM Unit := do
  match ← runSource fuel promptFile source with
  | .ok .null => return ()
  | .ok v =>
    match ← shown? fuel v with
    | some text => showText (text ++ "\n")
    | none => showText "<unprintable>\n"
  | .error errors => report errors

/-- Reads lines and runs them, until the input ends or a line cannot be read. As long as brackets are
open, the text that was entered is continued with the next line. At most `rounds` lines are read. -/
def prompt (fuel : Nat) : Nat → String → SessionM Unit
  | 0, _ => throw .exhausted
  | rounds + 1, entered => do
    showText (if entered.isEmpty then "> " else "... ")
    match ← observe (Eval.ask .readLine) with
    | .ok (.line (.ok line)) =>
      if line.isEmpty then return ()
      else
        let entered := entered ++ line
        if openBrackets (scan entered) > 0 then prompt fuel rounds entered
        else
          respond fuel entered
          prompt fuel rounds ""
    | _ => return ()

/-- How a run of the command line ends. -/
inductive Ending where
  | finished (code : Int)
  | awaiting (q : Query)
  | exhausted

/-- A run of the command line: how it ends, and what was shown until then. -/
structure Transcript where
  ending : Ending
  events : List Event

/-- What a run of the command line comes to. -/
def transcript (x : SessionM Int) (m : Machine) : Transcript :=
  match x m with
  | .ok code m => ⟨.finished code, m.events.toList⟩
  | .error (.exited code) m => ⟨.finished (code % 256), m.events.toList⟩
  | .error (.awaiting q) m => ⟨.awaiting q, m.events.toList⟩
  | .error .exhausted m => ⟨.exhausted, m.events.toList⟩

/-- Runs the command line. The exit code is 64 if there are too many arguments, and 65 if a script
fails. -/
def run (fuel : Nat) (arguments : List String) (prelude : Option String) (host : Host) :
    Transcript :=
  let machine (file : String) : Machine := (Machine.initial file host).withConsole
  match arguments with
  | [] =>
    transcript (do prompt fuel fuel ""; return 0) (machine promptFile)
  | [path] =>
    let imports := preludePaths prelude
    transcript (do return if ← runScript fuel path imports then 0 else 65) (machine path)
  | _ => ⟨.finished 64, [.err "Usage: peach [script]\n"]⟩

end Console

end ProtoScript
