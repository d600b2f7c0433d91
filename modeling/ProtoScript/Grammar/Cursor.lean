import ProtoScript.Grammar.Fault
import ProtoScript.Program.Tree

/-!
# Reading tokens

A reader walks over the tokens of one file. It holds the tokens that are left and the errors that were
recorded so far; it either yields a result or stops with a fault, and in both cases what it consumed
stays consumed and what it recorded stays recorded.
-/

namespace ProtoScript.Grammar

/-- What a file brings into the program that imports it. -/
structure Inclusion where
  statements : List Statement
  errors : List Diagnostic

/-- What a reader knows about the file it reads: its name, the place where its input ends (that of the
last token), and what its imports bring in. -/
structure Context where
  file : String
  last : Position
  bring : String → Except Complaint Inclusion

/-- How far a reader has come. -/
structure Cursor where
  rest : List Lexeme
  errors : List Diagnostic

/-- A computation that reads tokens. -/
abbrev Reader := EStateM Fault Cursor

/-- The place where the input of a list of tokens ends. -/
def lastPosition (ts : List Lexeme) : Position :=
  match ts.getLast? with
  | some t => t.pos
  | none => .start

/-- Stops with a fault. -/
def fail {α : Type} (complaint : Complaint) (pos : Position) : Reader α :=
  throw ⟨complaint, pos⟩

/-- The next token, if there is one. -/
def peek? : Reader (Option Token) := do
  return (← get).rest.head?.map (·.token)

/-- The place of the next token, or of the end of the input. -/
def here (ctx : Context) : Reader Position := do
  match (← get).rest with
  | t :: _ => return t.pos
  | [] => return ctx.last

/-- Consumes the next token, which has to be there. -/
def skip : Reader Unit := do
  match (← get).rest with
  | _ :: rest => modify fun c => { c with rest }
  | [] => fail .pastEnd .outside

/-- Consumes the next token and yields it with its place; at the end of the input nothing is consumed
and there is no token. -/
def next? (ctx : Context) : Reader (Option Token × Position) := do
  match (← get).rest with
  | l :: _ =>
    skip
    return (some l.token, l.pos)
  | [] => return (none, ctx.last)

/-- Whether the next token is the given one. -/
def check (t : Token) : Reader Bool := do
  return (← peek?) == some t

/-- Consumes the next token if it is the given one, and yields its place. -/
def accept? (t : Token) : Reader (Option Position) := do
  match (← get).rest with
  | l :: _ =>
    if l.token = t then
      skip
      return some l.pos
    else return none
  | [] => return none

/-- Consumes the given token and yields its place; any other token is a fault, and is left. -/
def expect (ctx : Context) (t : Token) : Reader Position := do
  match ← accept? t with
  | some pos => return pos
  | none => fail (.expected t (← peek?)) (← here ctx)

/-- Consumes a name; any other token is a fault, and is consumed too. -/
def name (ctx : Context) : Reader String := do
  match ← next? ctx with
  | (some (.name spelling), _) => return spelling
  | (found, pos) => fail (.expectedName found) pos

/-- Records errors. -/
def recordAll (errors : List Diagnostic) : Reader Unit :=
  modify fun c => { c with errors := c.errors ++ errors }

/-- Records a fault as an error of the file. -/
def record (ctx : Context) (fault : Fault) : Reader Unit :=
  recordAll [fault.diagnostic ctx.file]

/-- Consumes the semicolon that ends a statement. A missing one is recorded and reading goes on at
the token in its place, which most likely starts the next statement. -/
def endStatement (ctx : Context) : Reader Unit := do
  if (← accept? (.mark .semicolon)).isNone then
    record ctx ⟨.expected (.mark .semicolon) (← peek?), ← here ctx⟩

/-- Whether a statement may start, or a block end, at this token. -/
def isBoundary : Token → Bool
  | .mark .closeBrace => true
  | .keyword k =>
    k ∈ [.letWord, .funcWord, .ifWord, .whileWord, .forWord, .returnWord, .importWord, .macroWord]
  | _ => false

/-- Drops tokens up to the next boundary between statements: just past a semicolon, or right before a
token at which a statement may start or a block end. -/
def toBoundary : List Lexeme → List Lexeme
  | [] => []
  | t :: ts =>
    if t.token = .mark .semicolon then ts
    else if isBoundary t.token then t :: ts
    else toBoundary ts

/-- After a fault in a statement that started with `count` tokens left: records it and goes on at the
next boundary, but always past at least one token. -/
def recover (ctx : Context) (count : Nat) (fault : Fault) : Reader Unit := do
  record ctx fault
  modify fun c =>
    let rest := toBoundary c.rest
    { c with rest := if rest.length = count then rest.tail else rest }

/-- Splits off the tokens up to the brace that closes the given number of open braces; that brace is
dropped. -/
def balanced? : Nat → List Lexeme → Option (List Lexeme × List Lexeme)
  | _, [] => none
  | depth, t :: ts =>
    match t.token with
    | .mark .closeBrace =>
      match depth with
      | 0 => some ([], ts)
      | depth + 1 => (balanced? depth ts).map fun r => (t :: r.1, r.2)
    | .mark .openBrace => (balanced? (depth + 1) ts).map fun r => (t :: r.1, r.2)
    | _ => (balanced? depth ts).map fun r => (t :: r.1, r.2)

end ProtoScript.Grammar
