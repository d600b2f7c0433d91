import ProtoScript.Eval.Native.Array
import ProtoScript.Eval.Native.Console
import ProtoScript.Eval.Native.Macro
import ProtoScript.Eval.Native.Object
import ProtoScript.Eval.Native.Scalar

/-!
# What each native function does
-/

namespace ProtoScript.Eval

/-- Calls a native function. Loops inside it are cut off after `fuel` rounds. -/
def callNative (fuel : Nat) (self : Work → Eval Value) (n : Native) (c : NativeCall) :
    Eval Value :=
  match n with
  | .newInstance => newInstance self c
  | .typeOf => typeOf c
  | .toText => toText self c
  | .extendBy => extendBy c
  | .patchFrom => patchFrom c
  | .satisfiesType => satisfiesType c
  | .compareTo => compareTo c
  | .negate => negate self c
  | .alwaysTrue => return .truth true
  | .conjunction => combineTruth self (· && ·) c
  | .disjunction => combineTruth self (· || ·) c
  | .propertyOf => propertyOf c
  | .constructScalar => constructScalar self c
  | .scalarTruth => scalarTruth c
  | .toInt => toInt c
  | .toFloat => toFloat c
  | .addNumber => arithmetic .add c
  | .subtract => arithmetic .subtract c
  | .multiply => arithmetic .multiply c
  | .divide => division .divide c
  | .modulo => division .modulo c
  | .isLess => comparison "<" (·.isLT) c
  | .isLessEqual => comparison "<=" (·.isLE) c
  | .isGreater => comparison ">" (·.isGT) c
  | .isGreaterEqual => comparison ">=" (·.isGE) c
  | .negateNumber => negateNumber c
  | .identity => identity c
  | .textLength => textLength c
  | .appendText => appendText self c
  | .charAt => charAt c
  | .arrayLength => arrayLength c
  | .elementAt => elementAt c
  | .setElement => setElement c
  | .appendElement => appendElement c
  | .cloneArray => cloneArray c
  | .iterate => iterate self fuel c
  | .callFunction => callFunction self c
  | .constructMacro => constructMacro c
  | .callMacro => callMacro self fuel c
  | .expandMember => expandArgument self fuel c
  | .expandText => expandArgument self fuel c
  | .maximum => extremum "max" .gt c
  | .minimum => extremum "min" .lt c
  | .print => print self c
  | .write => write self c
  | .input => input self c
  | .readFile => readFile c
  | .writeFile => writeFile self c
  | .now => now
  | .sleep => sleep c
  | .exit => exit c
  | .color => color self c

end ProtoScript.Eval
