import ProtoScript.FileTree
import ProtoScript.Program.Operator

/-!
# Problems

What can go wrong while a program runs. Each problem has a kind and a wording; both are given here
once. Values take part in a problem as the names of their types or as text.
-/

namespace ProtoScript

/-- Something that goes wrong while a program runs. -/
inductive Problem where
  -- names and members
  | undefinedVariable (name : String)
  | undeclaredTarget (name : String)
  | alreadyDefined (name : String)
  | noMember (owner name : String)
  -- control
  | returnOutside
  | rootScopeClosed
  | operandsExhausted
  -- expressions
  | strayArgumentSpread
  | badTarget
  | operatorMismatch (op : BinaryOperator) (left right : String)
  | badTruth (type : String)
  | notAType (shown : String)
  | noTypeFor (shown : String)
  | typeMismatch (declared actual : String)
  | cannotSpread (type : String)
  -- calls
  | notCallable (shown : String)
  | argumentCount (atLeast : Bool) (expected actual : Nat)
  | noTemplate (type : String)
  | badConstructor (shown : String)
  | noReceiver
  -- natives
  | expectedObject (what type : String)
  | expectedIndex (type : String)
  | expectedArray (type : String)
  | expectedText (type : String)
  | expectedArguments (type : String)
  | expectedPropertyName (type : String)
  | indexOutOfRange (index : Int) (length : Nat)
  | cannotConstruct (type source : String)
  | unreadableNumber (text target : String)
  | notConvertible (type target : String)
  | cannotCombine (action left right : String)
  | overflow (action : String)
  | divisionByZero
  | cannotNegate (type : String)
  | cannotKeepSign (type : String)
  | cannotCompare (left right symbol : String)
  | incomparable (function left right : String)
  | noCandidates (function : String)
  | notAMacroBody (type : String)
  | expansionFailed (details : List String)
  | notExpandable
  -- the outside
  | cannotOpen (path : String) (error : FileError)
  | cannotWrite (path : String) (error : FileError)
  | cannotShow (error : FileError)
  | cannotReadInput (error : FileError)
  | cannotSleep (shown : String)
  | exitCodeOutOfRange (code : Int)
  | badExitCode (shown : String)
  | unknownColor (name : String)
deriving DecidableEq, Repr

namespace Problem

/-- The kind of a problem. -/
def kind : Problem → DiagnosticKind
  | undefinedVariable _ | undeclaredTarget _ | noMember _ _ | cannotOpen _ _ | cannotWrite _ _ =>
    .missing
  | alreadyDefined _ => .redefinition
  | returnOutside => .grammar
  | argumentCount _ _ _ | noReceiver | noCandidates _ | cannotSleep _ | exitCodeOutOfRange _
  | badExitCode _ | unknownColor _ => .argument
  | expansionFailed _ | notExpandable => .expansion
  | _ => .typing

/-- The wording of a problem. -/
def message : Problem → String
  | undefinedVariable name => "Referencing undefined variable '" ++ name ++ "'"
  | undeclaredTarget name => "Assigning to undeclared variable '" ++ name ++ "'"
  | alreadyDefined name => "'" ++ name ++ "' is already defined in this scope"
  | noMember owner name => owner ++ " has no direct or inherited member '" ++ name ++ "'"
  | returnOutside => "Return outside of a function"
  | rootScopeClosed => "Cannot close the global scope"
  | operandsExhausted => "Operand stack underflow"
  | strayArgumentSpread => "A splat argument is only allowed in a call"
  | badTarget => "Invalid assignment target"
  | operatorMismatch op left right =>
    "Cannot apply operator '" ++ String.ofList op.mark.chars ++ "' to " ++ left ++ " and " ++ right
  | badTruth type => "Expected 'bool' to return an integer, got " ++ type
  | notAType shown => shown ++ " is not a type"
  | noTypeFor shown => "Cannot resolve the type of " ++ shown
  | typeMismatch declared actual => "Expected a value of type " ++ declared ++ ", got " ++ actual
  | cannotSpread type => "Cannot splat a value of type " ++ type
  | notCallable shown => shown ++ " is not callable"
  | argumentCount atLeast expected actual =>
    "Expected " ++ (if atLeast then "at least " else "") ++ toString expected ++ " argument(s), got "
      ++ toString actual
  | noTemplate type =>
    type ++ " cannot be constructed because no cloneable 'instance' member exists"
  | badConstructor shown => "Invalid constructor " ++ shown
  | noReceiver => "Expected a receiver"
  | expectedObject what type => "Expected " ++ what ++ ", got " ++ type
  | expectedIndex type => "Expected an Int index, got " ++ type
  | expectedArray type => "Expected an Array, got " ++ type
  | expectedText type => "Expected a Str, got " ++ type
  | expectedArguments type => "Expected an Array of arguments, got " ++ type
  | expectedPropertyName type => "Expected a property name, got " ++ type
  | indexOutOfRange index length =>
    "Index " ++ toString index ++ " out of range for length " ++ toString length
  | cannotConstruct type source => "Cannot construct a " ++ type ++ " from " ++ source
  | unreadableNumber text target => "Cannot convert \"" ++ text ++ "\" to " ++ target
  | notConvertible type target => "Cannot convert " ++ type ++ " to " ++ target
  | cannotCombine action left right => "Cannot " ++ action ++ " " ++ left ++ " and " ++ right
  | overflow action => "Integer overflow in " ++ action
  | divisionByZero => "Division by zero"
  | cannotNegate type => "Cannot negate " ++ type
  | cannotKeepSign type => "Cannot apply unary plus to " ++ type
  | cannotCompare left right symbol =>
    "Cannot compare " ++ left ++ " and " ++ right ++ " with '" ++ symbol ++ "'"
  | incomparable function left right =>
    function ++ ": cannot compare " ++ left ++ " and " ++ right
  | noCandidates function => function ++ " expects at least one value"
  | notAMacroBody type => "A macro needs a function, got " ++ type
  | expansionFailed details => "Macro expansion failed:\n\t" ++ "\n\t".intercalate details
  | notExpandable => "Expected a string for macro expansion"
  | cannotOpen path error => "Could not open '" ++ path ++ "': " ++ error.message
  | cannotWrite path error => "Could not write '" ++ path ++ "': " ++ error.message
  | cannotShow error => "Could not write output: " ++ error.message
  | cannotReadInput error => "Could not read input: " ++ error.message
  | cannotSleep shown => "Cannot sleep for " ++ shown
  | exitCodeOutOfRange code => "Exit code " ++ toString code ++ " is out of range"
  | badExitCode shown => "Invalid exit code " ++ shown
  | unknownColor name => "Unknown color '" ++ name ++ "'"

/-- A problem as it is reported for a place of a file. -/
def diagnostic (p : Problem) (file : String) (pos : Position) : Diagnostic :=
  ⟨p.kind, file, pos, p.message⟩

end Problem

end ProtoScript
