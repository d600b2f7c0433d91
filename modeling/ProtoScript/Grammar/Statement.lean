import ProtoScript.Grammar.Expression

/-!
# Reading statements

A statement that cannot be read is recorded as an error, and reading goes on behind it, so one mistake
does not hide the next. A missing semicolon is recorded too, but the statement before it is kept.
-/

namespace ProtoScript.Grammar

variable (ctx : Context) (self : {α : Type} → Goal α → Reader α)

/-- The parameters of a procedure. The one that takes all that is left has to be the last. -/
def parameters (first : Bool) (rest : Option Parameter) :
    Reader (List Parameter × Option Parameter) := do
  if ← check (.mark .closeParen) then
    skip
    return ([], rest)
  else
    separator ctx first
    let pos ← here ctx
    if rest.isSome then fail .splatNotLast pos
    else
      let star ← accept? (.mark .star)
      let spelling ← name ctx
      let type ← after? self .colon (.operand 0)
      let parameter : Parameter := ⟨spelling, type, pos⟩
      if star.isSome then self (.parameters false (some parameter))
      else
        let (fixed, rest) ← self (.parameters false none)
        return (parameter :: fixed, rest)

/-- Statements between braces. -/
def block : Reader Block := do
  let pos ← expect ctx (.mark .openBrace)
  let statements ← self (.statements true)
  let _ ← expect ctx (.mark .closeBrace)
  return ⟨statements, pos⟩

/-- The parameters and the body of a procedure. -/
def procedure (pos : Position) : Reader Procedure := do
  let _ ← expect ctx (.mark .openParen)
  let (fixed, rest) ← self (.parameters true none)
  let body ← self .block
  return { fixed, rest, body, pos, origin := default }

/-- A condition and a block. -/
def branch : Reader Branch := do
  let condition ← self .expression
  let body ← self .block
  return ⟨condition, body⟩

/-- The further branches of a choice. -/
def branches : Reader (List Branch) := do
  if (← accept? (.keyword .elifWord)).isSome then
    let b ← branch self
    return b :: (← self .branches)
  else return []

/-- A choice, after its first word. -/
def ifElse (pos : Position) : Reader Statement := do
  let first ← branch self
  let more ← self .branches
  if (← accept? (.keyword .elseWord)).isSome then
    return .ifElse (first :: more) (some (← self .block)) pos
  else return .ifElse (first :: more) none pos

/-- A loop over the elements of an array, after its first word. -/
def forIn (pos : Position) : Reader Statement := do
  let namePos ← here ctx
  let spelling ← name ctx
  let _ ← expect ctx (.keyword .inWord)
  let iterable ← self .expression
  let body ← self .block
  return .forIn spelling iterable
    { fixed := [⟨spelling, none, namePos⟩], rest := none, body, pos, origin := default } pos

/-- A named procedure, after its first word: a declaration with the type `Func`. -/
def namedProcedure (pos : Position) : Reader Statement := do
  let spelling ← name ctx
  let p ← self (.procedure pos)
  return .declare ⟨spelling, some (.variable "Func" pos), some (.procedure p), pos⟩

/-- A macro, after its first word: a procedure that gets the macro itself as its first argument. -/
def defineMacro (pos : Position) : Reader Statement := do
  let spelling ← name ctx
  let p ← self (.procedure pos)
  return .defineMacro spelling { p with fixed := ⟨"self", none, pos⟩ :: p.fixed } pos

/-- The statements of another file, as one statement. -/
def importPath (path : String) (pos : Position) : Reader Statement := do
  match ctx.bring path with
  | .ok inclusion =>
    recordAll inclusion.errors
    return .importFile path path inclusion.statements pos
  | .error complaint => fail complaint pos

/-- An import, after its first word. -/
def importFile (pos : Position) : Reader Statement := do
  match ← next? ctx with
  | (some (.text path), _) =>
    let _ ← expect ctx (.mark .semicolon)
    importPath ctx path pos
  | (found, _) => fail (.expectedPath found) pos

/-- The end of a procedure, after its first word: the value it yields, which is null if none is
given. -/
def returnWith (pos : Position) : Reader Statement := do
  let value ←
    if ← check (.mark .semicolon) then pure (.literal .null pos) else self .expression
  endStatement ctx
  return .returnWith value pos

/-- An expression, as a statement. -/
def expressionStatement : Reader Statement := do
  let e ← expression ctx self
  endStatement ctx
  return .expression e

/-- Whether the tokens start with the word `func` and a name. -/
def startsNamedProcedure : List Lexeme → Bool
  | t :: u :: _ =>
    match t.token, u.token with
    | .keyword .funcWord, .name _ => true
    | _, _ => false
  | _ => false

/-- A statement. -/
def statement : Reader Statement := do
  let pos ← here ctx
  if startsNamedProcedure (← get).rest then
    skip
    namedProcedure ctx self pos
  else
    match ← peek? with
    | some (.keyword .letWord) =>
      skip
      let d ← declaration ctx self pos
      endStatement ctx
      return .declare d
    | some (.keyword .ifWord) =>
      skip
      ifElse self pos
    | some (.keyword .whileWord) =>
      skip
      let b ← branch self
      return .whileDo b.condition b.body pos
    | some (.keyword .forWord) =>
      skip
      forIn ctx self pos
    | some (.keyword .returnWord) =>
      skip
      returnWith ctx self pos
    | some (.keyword .importWord) =>
      skip
      importFile ctx pos
    | some (.keyword .macroWord) =>
      skip
      defineMacro ctx self pos
    | some (.mark .openBrace) => return .block (← block ctx self)
    | some (.mark .semicolon) =>
      skip
      return .empty pos
    | _ => expressionStatement ctx self

/-- A statement, or nothing if it cannot be read; then its fault is recorded, and the tokens up to the
next boundary are dropped. -/
def statement? : Reader (Option Statement) := do
  let count := (← get).rest.length
  try
    pure (some (← statement ctx self))
  catch fault =>
    recover ctx count fault
    pure none

/-- Statements up to the end of the input, or up to a closing brace. -/
def statements (inBlock : Bool) : Reader (List Statement) := do
  match ← peek? with
  | none => return []
  | some t =>
    if inBlock && t == .mark .closeBrace then return []
    else
      let first ← statement? ctx self
      let more ← self (.statements inBlock)
      return first.toList ++ more

/-- The rule for each goal. -/
def rule {α : Type} : Goal α → Reader α
  | .expression => expression ctx self
  | .operand rank => operand ctx self rank
  | .operators rank left => operators ctx self rank left
  | .unary => unary ctx self
  | .suffixes target => suffixes ctx self target
  | .arguments first => arguments ctx self first
  | .elements first => elements ctx self first
  | .members => members ctx self
  | .parameters first rest => parameters ctx self first rest
  | .procedure pos => procedure ctx self pos
  | .block => block ctx self
  | .branches => branches self
  | .statements inBlock => statements ctx self inBlock

end ProtoScript.Grammar
