/-!
# Native functions

The functions that the language brings along. A native function is known by the name it is registered
under; the same name may stand for different functions in different types, as `add` does.
-/

namespace ProtoScript

/-- The native functions. -/
inductive Native where
  -- members of every object
  | newInstance | typeOf | toText | extendBy | patchFrom | satisfiesType | compareTo | negate
  | alwaysTrue | conjunction | disjunction
  -- members of types
  | propertyOf
  -- members of scalars
  | constructScalar | scalarTruth | toInt | toFloat
  -- members of numbers
  | addNumber | subtract | multiply | divide | modulo | isLess | isLessEqual | isGreater
  | isGreaterEqual | negateNumber | identity
  -- members of texts
  | textLength | appendText | charAt
  -- members of arrays
  | arrayLength | elementAt | setElement | appendElement | cloneArray | iterate
  -- members of functions and macros
  | callFunction | constructMacro | callMacro | expandMember
  -- free functions
  | expandText | maximum | minimum
  -- the console, files and the clock
  | print | write | input | readFile | writeFile | now | sleep | exit | color
deriving DecidableEq, Repr, Inhabited

/-- The name that a native function is registered under. -/
def Native.name : Native → String
  | newInstance => "new"
  | typeOf => "type"
  | toText => "to_str"
  | extendBy => "extend"
  | patchFrom => "patch"
  | satisfiesType => "satisfies"
  | compareTo => "compare"
  | negate => "not"
  | alwaysTrue => "bool"
  | conjunction => "and"
  | disjunction => "or"
  | propertyOf => "property"
  | constructScalar => "construct"
  | scalarTruth => "bool"
  | toInt => "to_int"
  | toFloat => "to_float"
  | addNumber => "add"
  | subtract => "sub"
  | multiply => "mul"
  | divide => "div"
  | modulo => "mod"
  | isLess => "lt"
  | isLessEqual => "lte"
  | isGreater => "gt"
  | isGreaterEqual => "gte"
  | negateNumber => "neg"
  | identity => "pos"
  | textLength => "len"
  | appendText => "add"
  | charAt => "at"
  | arrayLength => "len"
  | elementAt => "at"
  | setElement => "set"
  | appendElement => "append"
  | cloneArray => "clone"
  | iterate => "iterate"
  | callFunction => "call"
  | constructMacro => "construct"
  | callMacro => "call"
  | expandMember => "expand"
  | expandText => "macro_expand"
  | maximum => "max"
  | minimum => "min"
  | print => "print"
  | write => "write"
  | input => "input"
  | readFile => "read_file"
  | writeFile => "write_file"
  | now => "now"
  | sleep => "sleep"
  | exit => "exit"
  | color => "color"

end ProtoScript
