import ProtoScript.Heap.Unwrap
import ProtoScript.Scope

/-!
# The core types

The types and functions that every program starts with. `Object` and `Type` are each other's parent;
every other type inherits from `Object`, the two kinds of numbers through `Num`. A type that can be
instantiated has a template in its member `instance`, and the template of a scalar type holds its
default value.

The types are the first objects of the heap, in the order of `CoreType`, and the templates follow
them in the same order.
-/

namespace ProtoScript

/-- The core types. -/
inductive CoreType where
  | type | object | num | int | float | str | bool | null | array | func | macroType
deriving DecidableEq, Repr, Inhabited

namespace CoreType

/-- All core types, in the order of the heap. -/
def all : List CoreType :=
  [type, object, num, int, float, str, bool, null, array, func, macroType]

/-- The name of a core type, which is also the variable that holds it. -/
def name : CoreType → String
  | type => "Type"
  | object => "Object"
  | num => "Num"
  | int => "Int"
  | float => "Float"
  | str => "Str"
  | bool => "Bool"
  | null => "Null"
  | array => "Array"
  | func => "Func"
  | macroType => "Macro"

/-- Where a core type stands in the heap. -/
def index : CoreType → Nat
  | type => 0
  | object => 1
  | num => 2
  | int => 3
  | float => 4
  | str => 5
  | bool => 6
  | null => 7
  | array => 8
  | func => 9
  | macroType => 10

/-- The object that is a core type. -/
def ref (t : CoreType) : ObjectRef := ⟨t.index⟩

/-- The template of a core type. -/
def template (t : CoreType) : ObjectRef := ⟨all.length + t.index⟩

/-- What a core type inherits from. -/
def parent : CoreType → CoreType
  | object => type
  | int | float => num
  | _ => object

/-- The native functions that are members of a core type. -/
def natives : CoreType → List Native
  | type => [.extendBy, .toText, .propertyOf]
  | object =>
    [.newInstance, .typeOf, .toText, .extendBy, .patchFrom, .satisfiesType, .compareTo, .negate,
      .alwaysTrue, .conjunction, .disjunction]
  | num =>
    [.constructScalar, .addNumber, .subtract, .multiply, .divide, .modulo, .isLess, .isLessEqual,
      .isGreater, .isGreaterEqual, .compareTo, .negateNumber, .identity, .scalarTruth, .toInt,
      .toFloat, .toText]
  | int | float => []
  | str =>
    [.constructScalar, .textLength, .appendText, .charAt, .isLess, .isLessEqual, .isGreater,
      .isGreaterEqual, .compareTo, .scalarTruth, .toInt, .toFloat, .toText]
  | bool | null => [.constructScalar, .scalarTruth, .toText]
  | array =>
    [.constructScalar, .arrayLength, .elementAt, .setElement, .appendElement, .cloneArray, .iterate,
      .scalarTruth, .toText]
  | func => [.constructScalar, .callFunction, .toText]
  | macroType => [.constructMacro, .callMacro, .expandMember]

/-- Whether a core type can be instantiated. -/
def hasTemplate : CoreType → Bool
  | type | num => false
  | _ => true

/-- What the template of a scalar type holds. -/
def default? : CoreType → Option Value
  | int => some (.int 0)
  | float => some (.float 0.0)
  | str => some (.text "")
  | bool => some (.bool false)
  | null | func => some .null
  | array => some (.array ⟨0⟩)
  | _ => none

/-- Native functions as members. -/
def nativeMembers (natives : List Native) : List (String × Value) :=
  natives.map fun n => (n.name, .native n)

/-- A core type as an object. -/
def typeObject (t : CoreType) : Object :=
  let template := if t.hasTemplate then [("instance", .object t.template)] else []
  .type t.name (some t.parent.ref) ⟨nativeMembers t.natives ++ template⟩ true

/-- The template of a core type as an object. -/
def templateObject (t : CoreType) : Object :=
  .plain none ⟨(t.default?.map fun v => (Heap.payload, v)).toList⟩

end CoreType

/-- The native functions that are variables of their own. -/
def freeNatives : List Native := [.expandText, .maximum, .minimum]

/-- The native functions for the console, files and the clock. -/
def consoleNatives : List Native :=
  [.print, .write, .input, .readFile, .writeFile, .now, .sleep, .exit, .color]

/-- The heap that every program starts with. The empty array is the default of the array type. -/
def coreHeap : Heap :=
  { objects := (CoreType.all.map CoreType.typeObject ++ CoreType.all.map CoreType.templateObject).toArray
    arrays := #[#[]] }

/-- What the variables that every program starts with hold. -/
def coreVariables : List (String × Value) :=
  CoreType.all.map (fun t => (t.name, .object t.ref)) ++ CoreType.nativeMembers freeNatives

/-- Binds a name in the root scope, or gives it a new value if it is bound there. -/
def Scopes.define (s : Scopes) (name : String) (value : Value) : Scopes :=
  match s.declare? root name none with
  | some (c, s) => s.put c value
  | none =>
    match s.findLocal? root name with
    | some c => s.put c value
    | none => s

/-- The scopes that every program starts with: the root scope with the core variables. -/
def coreScopes : Scopes :=
  coreVariables.foldl (fun s entry => s.define entry.1 entry.2) .initial

end ProtoScript
