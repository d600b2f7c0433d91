import ProtoScript.Eval.Arithmetic
import ProtoScript.Eval.Call
import ProtoScript.Heap.Combine
import ProtoScript.Token.Text

/-!
# Evaluating expressions
-/

namespace ProtoScript

namespace Eval

variable (self : Work → Eval Value)

/-- The type that a declaration asks for, if it asks for one. -/
def declaredType (d : Declaration) : Eval (Option ObjectRef) := do
  match d.type with
  | some e => return some (← evaluateType self e)
  | none => return none

/-- Makes sure that a value may be used for a variable, which may have been declared with a type. -/
def checkDeclared (v : Value) (type : Option ObjectRef) (pos : Position) : Eval Unit :=
  match type with
  | some t => typecheck v t pos
  | none => return ()

/-- Puts the first value of a variable into its cell. A type without a name takes the name of the
variable. -/
def settle (name : String) (c : CellRef) (v : Value) : Eval Value := do
  match v with
  | .object o => modifyHeap fun h => h.modifyObject o (·.named name)
  | _ => pure ()
  putCell c v
  return v

/-- A variable is declared before its value is evaluated, so the value may refer to it. -/
def runDeclaration (d : Declaration) : Eval Value := do
  let type ← declaredType self d
  let c ← declare d.name type d.pos
  match d.value with
  | some e =>
    let v ← self (.expression e)
    checkDeclared v type d.pos
    settle d.name c v
  | none => return .null

/-- The members of an object literal, declared one after the other so that later ones can refer to
earlier ones. A member with a type and no value stands for the type. -/
def objectMembers (members : Members) : List Declaration → Eval Members
  | [] => return members
  | d :: ds => do
    let v ←
      match d.value, d.type with
      | none, some e =>
        let type ← evaluateType self e
        discard <| declare d.name (some type) d.pos
        pure (.object type)
      | _, _ => runDeclaration self d
    objectMembers (members.insert d.name v) ds

/-- Whether an object literal describes a type: it has members, and all of them have a type and no
value. -/
def describesType (ds : List Declaration) : Bool :=
  !ds.isEmpty && ds.all fun d => d.value.isNone && d.type.isSome

/-- The object, or the type, that an object literal makes of its members. -/
def makeObject (ds : List Declaration) (members : Members) : Eval Value := do
  let parent := (← get).globalType? "Object"
  let o : Object :=
    if describesType ds then .type "" parent members false else .plain parent members
  return .object (← newObject o)

/-- An object literal. Its members are declared in a scope of their own, which is left however they
end. -/
def objectLiteral (ds : List Declaration) : Eval Value := do
  let saved := (← get).current
  openScope
  let outcome ← observe (objectMembers self .empty ds)
  modify fun m => { m with current := saved }
  match outcome with
  | .ok members => makeObject ds members
  | .error e => throw e

/-- The operators that the language decides by itself: identity, and on integers the bitwise
operations. On types, `|` makes a union and `&` a type with the members of both. -/
def builtInBinary (op : BinaryOperator) (left right : Value) (pos : Position) : Eval Value := do
  let m ← get
  if op = .identical then
    return .truth ((m.heap.innermost left).identical (m.heap.innermost right))
  else
    match m.heap.unwrap left, m.heap.unwrap right with
    | .int a, .int b => return .int (if op = .bitOr then a ||| b else a &&& b)
    | .object a, .object b =>
      if m.heap.isType a && m.heap.isType b then
        let combined ←
          if op = .bitOr then
            pure { Object.union a b with parent := m.globalType? "Type" }
          else
            let resolve := m.runtimeType?
            withHeap (·.merge resolve a b)
        return .object (← newObject combined)
      else raise (.operatorMismatch op "Object" "Object") pos
    | a, b => raise (.operatorMismatch op a.typeName b.typeName) pos

/-- An operation on two expressions. -/
def binary (op : BinaryOperator) (left right : Expression) (pos : Position) : Eval Value := do
  match op.dispatch with
  | .send method => sendTo self left method [right] pos
  | .sendThenNegate method =>
    let result ← sendTo self left method [right] pos
    send self result "not" [] pos
  | .builtIn =>
    let l ← self (.expression left)
    let r ← self (.expression right)
    builtInBinary op l r pos

/-- An assignment. A member is set on the object itself, never on the one it is inherited from. -/
def assign (target value : Expression) (pos : Position) : Eval Value := do
  match target with
  | .variable name _ =>
    let v ← self (.expression value)
    let m ← get
    match m.scopes.find? m.current name with
    | some c =>
      checkDeclared v (m.scopes.cell c).type pos
      putCell c v
      return v
    | none => raise (.undeclaredTarget name) pos
  | .member object name _ =>
    let o ← box self (← self (.expression object)) pos
    let v ← self (.expression value)
    assignMember o name v
    return v
  | .index object key _ => sendTo self object "set" [key, value] pos
  | _ => raise .badTarget pos

/-- The values of several expressions, in order. -/
def evaluateAll : List Expression → Eval (List Value)
  | [] => return []
  | e :: es => do
    let first ← self (.expression e)
    return first :: (← evaluateAll es)

/-- A call. If the callee is a member of something, that is the receiver. -/
def callExpression (callee : Expression) (arguments : List Expression) (pos : Position) :
    Eval Value := do
  match callee with
  | .member target name _ => sendTo self target name arguments pos
  | _ =>
    let function ← self (.expression callee)
    let values ← evaluateArguments self arguments
    self (.call function none values pos)

/-- Evaluates an expression. -/
def evaluate (e : Expression) : Eval Value := do
  match e with
  | .literal value _ => return .ofLiteral value
  | .variable name pos => lookupVariable name pos
  | .unary op operand pos => sendTo self operand op.method [] pos
  | .binary op left right pos => binary self op left right pos
  | .assign target value pos => assign self target value pos
  | .call callee arguments pos => callExpression self callee arguments pos
  | .member target name pos =>
    let o ← box self (← self (.expression target)) pos
    member o name pos
  | .index target key pos => sendTo self target "at" [key] pos
  | .procedure p => return .procedure p
  | .array elements _ => newArray (← evaluateAll self elements)
  | .object members _ => objectLiteral self members
  | .splat _ pos => raise .strayArgumentSpread pos
  | .mixin tokens _ => return .text (Token.render (tokens.map (·.token)))

end Eval

end ProtoScript
