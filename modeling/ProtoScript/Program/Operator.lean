import ProtoScript.Token.Basic

/-!
# Operators

Almost every operator is a message to its left operand: `a + b` sends `add` to `a`. Only `|`, `&` and
`<=>` are decided by the language itself. Binary operators are ranked by how tightly they bind; all of
them associate to the left.
-/

namespace ProtoScript

/-- The operators that stand before their operand. -/
inductive UnaryOperator where
  | minus | plus | bang
deriving DecidableEq, Repr, Inhabited

namespace UnaryOperator

/-- The mark an operator is written with. -/
def mark : UnaryOperator → Mark
  | minus => .minus
  | plus => .plus
  | bang => .bang

/-- The operator that a token is, before an operand. -/
def ofToken? : Token → Option UnaryOperator
  | .mark .minus => some minus
  | .mark .plus => some plus
  | .mark .bang => some bang
  | _ => none

theorem ofToken?_mark (op : UnaryOperator) : ofToken? (.mark op.mark) = some op := by
  cases op <;> rfl

/-- The message that the operand is sent. -/
def method : UnaryOperator → String
  | minus => "neg"
  | plus => "pos"
  | bang => "not"

end UnaryOperator

/-- The operators that stand between two operands. -/
inductive BinaryOperator where
  | plus | minus | times | divide | modulo
  | less | lessEqual | greater | greaterEqual | equal | notEqual
  | and | or
  | bitOr | bitAnd | identical
deriving DecidableEq, Repr, Inhabited

/-- What an operator does with its operands. -/
inductive Dispatch where
  /-- The left operand is sent a message. -/
  | send (method : String)
  /-- The left operand is sent a message, and the answer is sent `not`. -/
  | sendThenNegate (method : String)
  /-- The language decides by itself. -/
  | builtIn
deriving DecidableEq, Repr

namespace BinaryOperator

/-- The mark an operator is written with. -/
def mark : BinaryOperator → Mark
  | plus => .plus
  | minus => .minus
  | times => .star
  | divide => .slash
  | modulo => .percent
  | less => .less
  | lessEqual => .lessEqual
  | greater => .greater
  | greaterEqual => .greaterEqual
  | equal => .equalEqual
  | notEqual => .bangEqual
  | and => .andAnd
  | or => .orOr
  | bitOr => .pipe
  | bitAnd => .ampersand
  | identical => .spaceship

/-- The operator that a token is, after an operand. -/
def ofToken? : Token → Option BinaryOperator
  | .mark .plus => some plus
  | .mark .minus => some minus
  | .mark .star => some times
  | .mark .slash => some divide
  | .mark .percent => some modulo
  | .mark .less => some less
  | .mark .lessEqual => some lessEqual
  | .mark .greater => some greater
  | .mark .greaterEqual => some greaterEqual
  | .mark .equalEqual => some equal
  | .mark .bangEqual => some notEqual
  | .mark .andAnd => some and
  | .mark .orOr => some or
  | .mark .pipe => some bitOr
  | .mark .ampersand => some bitAnd
  | .mark .spaceship => some identical
  | _ => none

theorem ofToken?_mark (op : BinaryOperator) : ofToken? (.mark op.mark) = some op := by
  cases op <;> rfl

/-- How tightly an operator binds; operands of a higher rank are taken together first. -/
def rank : BinaryOperator → Nat
  | or => 0
  | and => 1
  | bitOr | bitAnd => 2
  | equal | notEqual | identical => 3
  | less | lessEqual | greater | greaterEqual => 4
  | plus | minus => 5
  | times | divide | modulo => 6

/-- What an operator does with its operands. -/
def dispatch : BinaryOperator → Dispatch
  | plus => .send "add"
  | minus => .send "sub"
  | times => .send "mul"
  | divide => .send "div"
  | modulo => .send "mod"
  | less => .send "lt"
  | lessEqual => .send "lte"
  | greater => .send "gt"
  | greaterEqual => .send "gte"
  | equal => .send "compare"
  | notEqual => .sendThenNegate "compare"
  | and => .send "and"
  | or => .send "or"
  | bitOr | bitAnd | identical => .builtIn

/-- The operator that a compound assignment such as `+=` applies before it assigns. -/
def ofCompound? : Token → Option BinaryOperator
  | .mark .plusEqual => some plus
  | .mark .minusEqual => some minus
  | .mark .starEqual => some times
  | .mark .slashEqual => some divide
  | _ => none

end BinaryOperator

end ProtoScript
