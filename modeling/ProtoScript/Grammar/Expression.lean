import ProtoScript.Grammar.Cursor

/-!
# Reading expressions

Each rule of the grammar is a function of `self`, which reads the phrases inside it. A rule calls
`self` only after it has consumed a token, so a reader that may nest as deep as there are tokens never
runs out; where nothing has been consumed yet, rules call each other directly.

From loose to tight: assignment, the binary operators by rank, the unary operators, then calls,
members and indices, which follow their target, and last the phrases that start with a token of their
own.
-/

namespace ProtoScript.Grammar

/-- A phrase to be read, and the type of what it denotes. -/
inductive Goal : Type → Type where
  /-- An expression of any kind. -/
  | expression : Goal Expression
  /-- An expression whose binary operators have at least the given rank. -/
  | operand (rank : Nat) : Goal Expression
  /-- More operators of at least the given rank, to the right of an expression. -/
  | operators (rank : Nat) (left : Expression) : Goal Expression
  /-- An expression without binary operators. -/
  | unary : Goal Expression
  /-- Calls, members and indices that follow an expression. -/
  | suffixes (target : Expression) : Goal Expression
  /-- The arguments of a call, up to and including the closing parenthesis. -/
  | arguments (first : Bool) : Goal (List Expression)
  /-- The elements of an array, up to and including the closing bracket. -/
  | elements (first : Bool) : Goal (List Expression)
  /-- The members of an object, up to and including the closing brace. -/
  | members : Goal (List Declaration)
  /-- Parameters, up to and including the closing parenthesis, after the given one for the rest. -/
  | parameters (first : Bool) (rest : Option Parameter) :
      Goal (List Parameter × Option Parameter)
  /-- The parameters and the body of a procedure at the given place. -/
  | procedure (pos : Position) : Goal Procedure
  /-- Statements between braces. -/
  | block : Goal Block
  /-- The further branches of a choice. -/
  | branches : Goal (List Branch)
  /-- Statements up to the end of the input, or up to a closing brace. -/
  | statements (inBlock : Bool) : Goal (List Statement)

variable (ctx : Context) (self : {α : Type} → Goal α → Reader α)

/-- A procedure of one parameter that yields the value of an expression. -/
def lambda (name : String) (pos : Position) : Reader Expression := do
  let body ← self .expression
  return .procedure
    { fixed := [⟨name, none, pos⟩], rest := none
      body := ⟨[.returnWith body body.pos], body.pos⟩
      pos, origin := default }

/-- The tokens of a mixin, between braces and kept as they are. -/
def mixin (pos : Position) : Reader Expression := do
  let _ ← expect ctx (.mark .openBrace)
  match balanced? 0 (← get).rest with
  | some (captured, rest) =>
    modify fun c => { c with rest }
    return .mixin captured pos
  | none =>
    modify fun c => { c with rest := [] }
    fail .openMixin pos

/-- A phrase that starts with a token of its own. -/
def primary : Reader Expression := do
  match ← next? ctx with
  | (some (.number spelling), pos) =>
    match Literal.ofNumeral? spelling with
    | some value => return .literal value pos
    | none => fail (.badNumeral spelling) pos
  | (some (.text contents), pos) => return .literal (.text contents) pos
  | (some (.keyword .trueWord), pos) => return .literal (.bool true) pos
  | (some (.keyword .falseWord), pos) => return .literal (.bool false) pos
  | (some (.keyword .nullWord), pos) => return .literal .null pos
  | (some (.name spelling), pos) =>
    if (← accept? (.mark .arrow)).isSome then lambda self spelling pos
    else return .variable spelling pos
  | (some (.mark .openParen), _) =>
    let e ← self .expression
    let _ ← expect ctx (.mark .closeParen)
    match e with
    | .variable spelling pos =>
      if (← accept? (.mark .arrow)).isSome then lambda self spelling pos
      else return e
    | _ => return e
  | (some (.mark .openBracket), pos) => return .array (← self (.elements true)) pos
  | (some (.mark .openBrace), pos) => return .object (← self .members) pos
  | (some (.keyword .funcWord), pos) => return .procedure (← self (.procedure pos))
  | (some (.keyword .mixinWord), pos) => mixin ctx pos
  | (found, pos) => fail (.expectedExpression found) pos

/-- Calls, members and indices that follow an expression. -/
def suffixes (target : Expression) : Reader Expression := do
  let pos ← here ctx
  match ← peek? with
  | some (.mark .dot) =>
    skip
    let member ← name ctx
    self (.suffixes (.member target member pos))
  | some (.mark .openParen) =>
    skip
    let arguments ← self (.arguments true)
    self (.suffixes (.call target arguments pos))
  | some (.mark .openBracket) =>
    skip
    let key ← self .expression
    let _ ← expect ctx (.mark .closeBracket)
    self (.suffixes (.index target key pos))
  | _ => return target

/-- An expression without binary operators. -/
def unary : Reader Expression := do
  let pos ← here ctx
  match (← peek?).bind UnaryOperator.ofToken? with
  | some op =>
    skip
    return .unary op (← self .unary) pos
  | none => suffixes ctx self (← primary ctx self)

/-- More operators of at least the given rank, to the right of an expression. The right operand takes
the operators that bind tighter, so operators of one rank associate to the left. -/
def operators (rank : Nat) (left : Expression) : Reader Expression := do
  let pos ← here ctx
  match (← peek?).bind BinaryOperator.ofToken? with
  | some op =>
    if rank ≤ op.rank then
      skip
      let right ← self (.operand (op.rank + 1))
      self (.operators rank (.binary op left right pos))
    else return left
  | none => return left

/-- An expression whose binary operators have at least the given rank. -/
def operand (rank : Nat) : Reader Expression := do
  operators ctx self rank (← unary ctx self)

/-- Whether a token assigns, and the operator that is applied first if it does. -/
def assignment? : Token → Option (Option BinaryOperator)
  | .mark .equal => some none
  | t => (BinaryOperator.ofCompound? t).map some

/-- An expression of any kind. `t += e` stands for `t = t + e`. -/
def expression : Reader Expression := do
  let target ← operand ctx self 0
  let pos ← here ctx
  match (← peek?).bind assignment? with
  | some compound =>
    if target.isTarget then
      skip
      let value ← self .expression
      match compound with
      | some op => return .assign target (.binary op target value pos) pos
      | none => return .assign target value pos
    else fail .badTarget pos
  | none => return target

/-- The comma before every item of a list but the first. -/
def separator (first : Bool) : Reader Unit := do
  unless first do
    let _ ← expect ctx (.mark .comma)

/-- The arguments of a call. An argument after a star is spread over the rest of the parameters and
has to be the last one. -/
def arguments (first : Bool) : Reader (List Expression) := do
  if ← check (.mark .closeParen) then
    skip
    return []
  else
    separator ctx first
    match ← accept? (.mark .star) with
    | some pos =>
      let e ← self .expression
      if ← check (.mark .closeParen) then
        skip
        return [.splat e pos]
      else fail .splatNotLast (← here ctx)
    | none =>
      let e ← expression ctx self
      return e :: (← self (.arguments false))

/-- The elements of an array. -/
def elements (first : Bool) : Reader (List Expression) := do
  if ← check (.mark .closeBracket) then
    skip
    return []
  else
    separator ctx first
    let e ← expression ctx self
    return e :: (← self (.elements false))

/-- A phrase that follows the given mark, if that is the next token. -/
def after? {α : Type} (m : Mark) (g : Goal α) : Reader (Option α) := do
  if (← accept? (.mark m)).isSome then return some (← self g)
  else return none

/-- A name with an optional type and an optional value. -/
def declaration (pos : Position) : Reader Declaration := do
  let spelling ← name ctx
  let type ← after? self .colon (.operand 0)
  let value ← after? self .equal .expression
  return ⟨spelling, type, value, pos⟩

/-- The members of an object. -/
def members : Reader (List Declaration) := do
  if ← check (.mark .closeBrace) then
    skip
    return []
  else
    let d ← declaration ctx self (← here ctx)
    let _ ← expect ctx (.mark .semicolon)
    return d :: (← self .members)

end ProtoScript.Grammar
