import ProtoScript.FileTree

/-!
# The host

What a program asks of the world outside: files, lines of input and the time. A host answers such
questions from what is known beforehand. It either simulates a world, of which everything is known,
or replays the answers that were recorded so far; then a question beyond them has no answer yet.
It also knows what becomes of the texts that a program shows, since showing a text can fail, just as
reading a line can.
-/

namespace ProtoScript

/-- A question about the world outside. -/
inductive Query where
  | readFile (path : String)
  | writeFile (path contents : String)
  | readLine
  | time
  | pause (seconds : Float)

/-- An answer to a question. A line comes with its line feed, and is empty when the input has
ended; it cannot be read if the input fails, or if its bytes are no text. -/
inductive Answer where
  | contents (result : Except FileError String)
  | written (result : Except FileError Unit)
  | line (result : Except FileError String)
  | time (seconds : Float)
  | done

/-- A world whose files, input and time are known. -/
structure Simulation where
  files : FileTree
  input : List Char
  /-- How reading fails when there is no input left, unless the input just ends there. -/
  failure : Option FileError := none
  clock : Float
deriving Inhabited

/-- Splits off the first line, together with its line feed. -/
def splitLine (cs : List Char) : List Char × List Char :=
  match cs.dropWhile (· != '\n') with
  | [] => (cs, [])
  | c :: rest => (cs.takeWhile (· != '\n') ++ [c], rest)

/-- Answers a question. Pausing lets the time pass. -/
def Simulation.answer (s : Simulation) : Query → Answer × Simulation
  | .readFile path => (.contents (s.files.read path), s)
  | .writeFile path contents =>
    match s.files.write path contents with
    | .ok files => (.written (.ok ()), { s with files })
    | .error e => (.written (.error e), s)
  | .readLine =>
    match s.input, s.failure with
    | [], some e => (.line (.error e), s)
    | input, _ =>
      let (line, rest) := splitLine input
      (.line (.ok (String.ofList line)), { s with input := rest })
  | .time => (.time s.clock, s)
  | .pause seconds => (.done, { s with clock := s.clock + seconds })

/-- Where answers come from. -/
inductive World where
  | simulated (s : Simulation)
  | replayed (answers : List Answer)

instance : Inhabited World := ⟨.simulated default⟩

/-- Answers a question, if an answer is known. -/
def World.answer? : World → Query → Option (Answer × World)
  | .simulated s, q =>
    let (a, s) := s.answer q
    some (a, .simulated s)
  | .replayed (a :: answers), _ => some (a, .replayed answers)
  | .replayed [], _ => none

/-- What a program runs in: a world that answers its questions, and what becomes of the texts that it
shows, one after the other. Texts beyond these are shown. -/
structure Host where
  world : World
  outcomes : List (Except FileError Unit)
deriving Inhabited

namespace Host

/-- A simulated world, in which every text is shown. -/
def simulated (s : Simulation) : Host := ⟨.simulated s, []⟩

/-- Answers that were recorded, with every text being shown. -/
def replayed (answers : List Answer) : Host := ⟨.replayed answers, []⟩

/-- Answers a question, if an answer is known. -/
def answer? (h : Host) (q : Query) : Option (Answer × Host) :=
  (h.world.answer? q).map fun (a, world) => (a, { h with world })

/-- What becomes of the next text that is shown. -/
def nextOutcome (h : Host) : Except FileError Unit × Host :=
  match h.outcomes with
  | [] => (.ok (), h)
  | result :: outcomes => (result, { h with outcomes })

end Host

/-- Something that is shown: by the program or by the prompt on the standard output, or on the
standard error output. -/
inductive Event where
  | out (text : String)
  | prompt (text : String)
  | err (text : String)
deriving DecidableEq, Repr

/-- What was shown on the standard output. -/
def shownOutput (events : List Event) : String :=
  String.join (events.map fun e =>
    match e with
    | .out text | .prompt text => text
    | .err _ => "")

/-- What was shown on the standard error output. -/
def shownErrors (events : List Event) : String :=
  String.join (events.map fun e =>
    match e with
    | .err text => text
    | .out _ | .prompt _ => "")

end ProtoScript
