import ProtoScript.Program.Literal
import ProtoScript.Program.Operator

/-!
# Programs

A program is a list of statements. Every node keeps the place it was read from, which is where errors
about it are reported.

A procedure is what a function literal denotes. It is a value, and two procedures are the same value
exactly when they were read from the same place of the same text. The place alone does not tell texts
apart, so a procedure also keeps the origin of its text, which is filled in when a program is loaded.
-/

namespace ProtoScript

/-- Which text something was read from: the number of the program that was loaded, the statement of
that program, and the places of the imports that lead from there to the text, innermost first. -/
structure Origin where
  load : Nat
  statement : Nat
  trail : List Position
deriving DecidableEq, Repr, Inhabited

mutual

/-- An expression. -/
inductive Expression where
  | literal (value : Literal) (pos : Position)
  | variable (name : String) (pos : Position)
  | unary (op : UnaryOperator) (operand : Expression) (pos : Position)
  | binary (op : BinaryOperator) (left right : Expression) (pos : Position)
  | assign (target value : Expression) (pos : Position)
  | call (callee : Expression) (arguments : List Expression) (pos : Position)
  | member (target : Expression) (name : String) (pos : Position)
  | index (target key : Expression) (pos : Position)
  | procedure (p : Procedure)
  | array (elements : List Expression) (pos : Position)
  | object (members : List Declaration) (pos : Position)
  | splat (operand : Expression) (pos : Position)
  | mixin (tokens : List Lexeme) (pos : Position)

/-- A name with an optional type and an optional value: a variable, or a member of an object. -/
structure Declaration where
  name : String
  type : Option Expression
  value : Option Expression
  pos : Position

/-- A parameter of a procedure. -/
structure Parameter where
  name : String
  type : Option Expression
  pos : Position

/-- Parameters and a body. Values beyond the fixed parameters are collected by `rest`. -/
structure Procedure where
  fixed : List Parameter
  rest : Option Parameter
  body : Block
  pos : Position
  origin : Origin

/-- Statements between braces. -/
structure Block where
  statements : List Statement
  pos : Position

/-- A condition and what is done if it holds. -/
structure Branch where
  condition : Expression
  body : Block

/-- A statement. The body of a loop over the elements of an array is the procedure that each element
is handed to. An import holds the statements of the file that it names. -/
inductive Statement where
  | expression (e : Expression)
  | declare (d : Declaration)
  | block (b : Block)
  | ifElse (branches : List Branch) (otherwise : Option Block) (pos : Position)
  | whileDo (condition : Expression) (body : Block) (pos : Position)
  | forIn (name : String) (iterable : Expression) (body : Procedure) (pos : Position)
  | returnWith (value : Expression) (pos : Position)
  | importFile (path file : String) (statements : List Statement) (pos : Position)
  | defineMacro (name : String) (body : Procedure) (pos : Position)
  | empty (pos : Position)

end

instance : Inhabited Expression := ⟨.literal .null .outside⟩

instance : Inhabited Statement := ⟨.empty .outside⟩

instance : Inhabited Block := ⟨⟨[], .outside⟩⟩

/-- The place of an expression. -/
def Expression.pos : Expression → Position
  | .literal _ pos | .variable _ pos | .unary _ _ pos | .binary _ _ _ pos | .assign _ _ pos
  | .call _ _ pos | .member _ _ pos | .index _ _ pos | .array _ pos | .object _ pos
  | .splat _ pos | .mixin _ pos => pos
  | .procedure p => p.pos

/-- Whether a value can be assigned to an expression. -/
def Expression.isTarget : Expression → Bool
  | .variable .. | .member .. | .index .. => true
  | _ => false

namespace Procedure

/-- Whether a procedure takes this many values. -/
def accepts (p : Procedure) (count : Nat) : Bool :=
  if p.rest.isSome then decide (p.fixed.length ≤ count) else count == p.fixed.length

/-- Whether two procedures are the same value. -/
def same (p q : Procedure) : Bool :=
  p.origin == q.origin && p.pos == q.pos

end Procedure

end ProtoScript
