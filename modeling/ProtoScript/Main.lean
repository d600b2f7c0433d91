import ProtoScript.Console
import Std.Time.DateTime.Timestamp

/-!
# The executable

The command line is a function of the answers that it is given, and of what becomes of the texts that
programs show. It is run with what is known; what it shows beyond what has been shown already is shown,
the question that it stops at is put to the operating system, and it is run again with one answer more,
until it finishes. If a text of a program cannot be shown, it is run again with that outcome instead.
-/

namespace ProtoScript.Executable

/-- How deep and how long a program may run. -/
def fuel : Nat := Nat.pow 10 15

/-- An error of the operating system about a file. -/
def fileError : IO.Error → FileError
  | .noFileOrDirectory .. => .notFound
  | .inappropriateType _ code details =>
    if code = 21 then .isDirectory
    else if code = 20 then .notADirectory
    else .other details code.toNat
  | .invalidArgument _ _ _ => .nulInName
  | .permissionDenied _ code details => .other details code.toNat
  | .resourceExhausted _ code details => .other details code.toNat
  | .resourceVanished code details => .other details code.toNat
  | e => .other (toString e) 0

/-- The bytes of the input up to its next line feed, or to its end. -/
partial def lineBytes (input : IO.FS.Stream) (bytes : ByteArray) : IO ByteArray := do
  let next ← input.read 1
  match next.toList with
  | [] => return bytes
  | b :: _ => if b = 10 then return bytes.push b else lineBytes input (bytes.push b)

/-- Puts a question to the operating system. -/
def inquire : Query → IO Answer
  | .readFile path => do
    try
      match FileNode.ofBytes (← IO.FS.readBinFile path) with
      | .text contents => return .contents (.ok contents)
      | _ => return .contents (.error .notText)
    catch e => return .contents (.error (fileError e))
  | .writeFile path contents => do
    try
      IO.FS.writeFile path contents
      return .written (.ok ())
    catch e => return .written (.error (fileError e))
  | .readLine => do
    try
      match FileNode.ofBytes (← lineBytes (← IO.getStdin) .empty) with
      | .text contents => return .line (.ok contents)
      | _ => return .line (.error .notText)
    catch e => return .line (.error (fileError e))
  | .time => do
    let now ← Std.Time.Timestamp.now
    return .time (Float.ofInt now.toNanosecondsSinceUnixEpoch.toInt / 1000000000.0)
  | .pause seconds => do
    IO.sleep (seconds * 1000.0).toUInt32
    return .done

/-- What is known about a run of the command line so far: the answers, what became of the texts that
programs showed, and how many events were shown. -/
structure Progress where
  answers : Array Answer := #[]
  outcomes : Array (Except FileError Unit) := #[]
  shown : Nat := 0

/-- Shows an event on the standard output and makes sure that it gets there. -/
def putText (text : String) : IO Unit := do
  let stdout ← IO.getStdout
  stdout.putStr text
  stdout.flush

/-- Shows events, until a text of a program cannot be shown. -/
def display (p : Progress) : List Event → IO Progress
  | [] => return p
  | event :: events => do
    match event with
    | .out text =>
      try putText text
      catch e => return { p with outcomes := p.outcomes.push (.error (fileError e)) }
      display { p with outcomes := p.outcomes.push (.ok ()), shown := p.shown + 1 } events
    | .prompt text =>
      putText text
      display { p with shown := p.shown + 1 } events
    | .err text =>
      (← IO.getStderr).putStr text
      display { p with shown := p.shown + 1 } events

/-- Runs the command line to its end, given what is known so far. -/
partial def converse (arguments : List String) (prelude : Option String) (p : Progress) :
    IO UInt32 := do
  let host : Host := ⟨.replayed p.answers.toList, p.outcomes.toList⟩
  let t := Console.run fuel arguments prelude host
  let p ← display p (t.events.drop p.shown)
  if p.shown < t.events.length then converse arguments prelude p
  else
    match t.ending with
    | .finished code => return code.toNat.toUInt32
    | .awaiting q =>
      let answer ← inquire q
      converse arguments prelude { p with answers := p.answers.push answer }
    | .exhausted => return 70

end ProtoScript.Executable

/-- The command line. -/
def main (arguments : List String) : IO UInt32 := do
  let prelude ← IO.getEnv ProtoScript.Console.preludeVariable
  ProtoScript.Executable.converse arguments prelude {}
