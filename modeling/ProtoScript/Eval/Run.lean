import ProtoScript.Eval.Native.Dispatch
import ProtoScript.Eval.Statement

/-!
# The evaluator

The rules for the three kinds of work, tied together. How deep work nests and how often a loop goes
round is bounded by `fuel`; work that needs more is cut off, which is an interruption of its own. A
computation that is not cut off does not depend on how much fuel there was.
-/

namespace ProtoScript.Eval

/-- Calls a value. -/
def call (fuel : Nat) (self : Work → Eval Value) (function : Value)
    (receiver : Option ObjectRef) (arguments : List Value) (pos : Position) : Eval Value :=
  match function with
  | .native n => callNative fuel self n ⟨receiver, arguments, pos⟩
  | .procedure p => callProcedure self p receiver arguments pos
  | v => callOther self v receiver arguments pos

/-- Does a piece of work, with `self` for the work inside it. -/
def step (fuel : Nat) (self : Work → Eval Value) : Work → Eval Value
  | .statement s => runStatement self fuel s
  | .expression e => evaluate self e
  | .call function receiver arguments pos => call fuel self function receiver arguments pos

/-- Does a piece of work that nests at most `fuel` deep. -/
def run : Nat → Work → Eval Value
  | 0, _ => throw .exhausted
  | fuel + 1, w => step fuel (run fuel) w

end ProtoScript.Eval
