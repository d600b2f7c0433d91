import ProtoScript.Program.Tree

/-!
# Printing programs

The canonical way to write a program down.  Each place of an expression demands a strength, and a
subexpression stands in parentheses exactly if it is weaker than its place demands: the left operand of
a binary operator has to be as strong as the operator, the right one stronger; the operand of a unary
operator has to be a unary expression or stronger; what a call, a member or an index follows has to be
one of these or a primary expression; a type must not be an assignment; everywhere else anything goes.
Procedures are written in full, and expressions that are statements stand in parentheses, so that
they cannot be mistaken for other statements.

How numbers are spelled is left open.

Two programs are equal up to places if they are equal after all places have been erased.
-/

namespace ProtoScript

/-- How strongly an expression holds together: assignments, binary operators from loose to tight,
unary operators, and all other expressions. -/
def Expression.strength : Expression → Nat
  | .assign .. => 0
  | .binary op .. => op.rank + 1
  | .unary .. => 8
  | _ => 9

/-- Puts the tokens of an expression in parentheses if it is weaker than demanded. -/
def enclosed (demand strength : Nat) (ts : List Token) : List Token :=
  if strength < demand then .mark .openParen :: ts ++ [.mark .closeParen] else ts

/-- The token of a literal. -/
def Literal.print (spell : Literal → String) : Literal → Token
  | .null => .keyword .nullWord
  | .bool true => .keyword .trueWord
  | .bool false => .keyword .falseWord
  | .text s => .text s
  | .int i => .number (spell (.int i))
  | .float x => .number (spell (.float x))

/-- The comma before an item of a list that is not the first one. -/
def comma (first : Bool) : List Token :=
  if first then [] else [.mark .comma]

/-! ## The tokens of a program -/

section Printing

variable (spell : Literal → String)

mutual

/-- The tokens of an expression. -/
def Expression.print : Expression → List Token
  | .literal v _ => [v.print spell]
  | .variable name _ => [.name name]
  | .unary op e _ => .mark op.mark :: enclosed 8 e.strength e.print
  | .binary op left right _ =>
    enclosed (op.rank + 1) left.strength left.print ++
      .mark op.mark :: enclosed (op.rank + 2) right.strength right.print
  | .assign target value _ => enclosed 1 target.strength target.print ++ .mark .equal :: value.print
  | .call callee arguments _ =>
    enclosed 9 callee.strength callee.print ++
      .mark .openParen :: Expression.printItems true arguments ++ [.mark .closeParen]
  | .member target name _ =>
    enclosed 9 target.strength target.print ++ [.mark .dot, .name name]
  | .index target key _ =>
    enclosed 9 target.strength target.print ++
      .mark .openBracket :: key.print ++ [.mark .closeBracket]
  | .procedure p => .keyword .funcWord :: p.print
  | .array elements _ =>
    .mark .openBracket :: Expression.printItems true elements ++ [.mark .closeBracket]
  | .object members _ => .mark .openBrace :: Declaration.printAll members ++ [.mark .closeBrace]
  | .splat e _ => .mark .star :: e.print
  | .mixin tokens _ =>
    .keyword .mixinWord :: .mark .openBrace :: tokens.map (·.token) ++ [.mark .closeBrace]

/-- The tokens of arguments or elements, from some point on. -/
def Expression.printItems (first : Bool) : List Expression → List Token
  | [] => []
  | e :: es => comma first ++ e.print ++ Expression.printItems false es

/-- The tokens of an optional type. -/
def Expression.printType : Option Expression → List Token
  | none => []
  | some e => .mark .colon :: enclosed 1 e.strength e.print

/-- The tokens of an optional value. -/
def Expression.printValue : Option Expression → List Token
  | none => []
  | some e => .mark .equal :: e.print

/-- The tokens of a declaration. -/
def Declaration.print : Declaration → List Token
  | ⟨name, type, value, _⟩ =>
    .name name :: Expression.printType type ++ Expression.printValue value

/-- The tokens of the members of an object. -/
def Declaration.printAll : List Declaration → List Token
  | [] => []
  | d :: ds => d.print ++ .mark .semicolon :: Declaration.printAll ds

/-- The tokens of a parameter. -/
def Parameter.print : Parameter → List Token
  | ⟨name, type, _⟩ => .name name :: Expression.printType type

/-- The tokens of parameters, from some point on. -/
def Parameter.printItems (first : Bool) : List Parameter → List Token
  | [] => []
  | p :: ps => comma first ++ p.print ++ Parameter.printItems false ps

/-- The tokens of the parameter that takes all that is left, if there is one. -/
def Parameter.printRest (first : Bool) : Option Parameter → List Token
  | none => []
  | some p => comma first ++ .mark .star :: p.print

/-- The tokens of the parameters and the body of a procedure. -/
def Procedure.print : Procedure → List Token
  | ⟨fixed, rest, body, _, _⟩ =>
    .mark .openParen :: Parameter.printItems true fixed ++
      Parameter.printRest fixed.isEmpty rest ++ .mark .closeParen :: body.print

/-- The tokens of a block. -/
def Block.print : Block → List Token
  | ⟨statements, _⟩ => .mark .openBrace :: Statement.printAll statements ++ [.mark .closeBrace]

/-- The tokens of a branch. -/
def Branch.print : Branch → List Token
  | ⟨condition, body⟩ => condition.print ++ body.print

/-- The tokens of branches, the first one after the given word. -/
def Branch.printAll (word : Keyword) : List Branch → List Token
  | [] => []
  | b :: bs => .keyword word :: b.print ++ Branch.printAll .elifWord bs

/-- The tokens of the block that is left over in a choice, if there is one. -/
def Block.printOtherwise : Option Block → List Token
  | none => []
  | some b => .keyword .elseWord :: b.print

/-- The tokens of a statement. -/
def Statement.print : Statement → List Token
  | .expression e => .mark .openParen :: e.print ++ [.mark .closeParen, .mark .semicolon]
  | .declare d => .keyword .letWord :: d.print ++ [.mark .semicolon]
  | .block b => b.print
  | .ifElse branches otherwise _ =>
    Branch.printAll .ifWord branches ++ Block.printOtherwise otherwise
  | .whileDo condition body _ => .keyword .whileWord :: condition.print ++ body.print
  | .forIn name iterable ⟨_, _, body, _, _⟩ _ =>
    .keyword .forWord :: .name name :: .keyword .inWord :: iterable.print ++ body.print
  | .returnWith e _ => .keyword .returnWord :: e.print ++ [.mark .semicolon]
  | .importFile path _ _ _ => [.keyword .importWord, .text path, .mark .semicolon]
  | .defineMacro name ⟨[], rest, body, _, _⟩ _ =>
    .keyword .macroWord :: .name name :: .mark .openParen :: Parameter.printRest true rest ++
      .mark .closeParen :: body.print
  | .defineMacro name ⟨_ :: fixed, rest, body, _, _⟩ _ =>
    .keyword .macroWord :: .name name :: .mark .openParen :: Parameter.printItems true fixed ++
      Parameter.printRest fixed.isEmpty rest ++ .mark .closeParen :: body.print
  | .empty _ => [.mark .semicolon]

/-- The tokens of statements one after the other. -/
def Statement.printAll : List Statement → List Token
  | [] => []
  | s :: ss => s.print ++ Statement.printAll ss

end

/-! ### First tokens

A phrase is read by its first token, so its tokens are also written as the first one and the others. -/

theorem Block.print_mk (ss : List Statement) (pos : Position) :
    Block.print spell ⟨ss, pos⟩ =
      Token.mark .openBrace :: (Statement.printAll spell ss ++ [Token.mark .closeBrace]) :=
  rfl

theorem Procedure.print_mk (fixed : List Parameter) (rest : Option Parameter) (body : Block)
    (pos : Position) (origin : Origin) :
    Procedure.print spell ⟨fixed, rest, body, pos, origin⟩ =
      Token.mark .openParen :: (Parameter.printItems spell true fixed ++
        Parameter.printRest spell fixed.isEmpty rest ++ [Token.mark .closeParen] ++
        body.print spell) :=
  (List.append_assoc _ [Token.mark .closeParen] _).symm

namespace Statement

theorem print_expression (e : Expression) :
    print spell (.expression e) =
      Token.mark .openParen :: e.print spell ++ [Token.mark .closeParen] ++ [Token.mark .semicolon] :=
  (List.append_assoc _ [Token.mark .closeParen] _).symm

theorem print_declare (d : Declaration) :
    print spell (.declare d) = Token.keyword .letWord :: (d.print spell ++ [Token.mark .semicolon]) :=
  rfl

theorem print_block (b : Block) : print spell (.block b) = b.print spell :=
  rfl

theorem print_ifElse (b : Branch) (bs : List Branch) (other : Option Block) (pos : Position) :
    print spell (.ifElse (b :: bs) other pos) =
      Token.keyword .ifWord :: (b.print spell ++
        (Branch.printAll spell .elifWord bs ++ Block.printOtherwise spell other)) :=
  List.append_assoc (Token.keyword .ifWord :: b.print spell) _ _

theorem print_forIn (name : String) (iterable : Expression) (p : Procedure) (pos : Position) :
    print spell (.forIn name iterable p pos) =
      Token.keyword .forWord :: Token.name name :: Token.keyword .inWord ::
        (iterable.print spell ++ p.body.print spell) := by
  cases p
  rfl

theorem print_returnWith (e : Expression) (pos : Position) :
    print spell (.returnWith e pos) =
      Token.keyword .returnWord :: (e.print spell ++ [Token.mark .semicolon]) :=
  rfl

/-- A macro is printed like a procedure without the parameter for what it is called on. -/
theorem print_defineMacro (name : String) (self : Parameter) (p : Procedure) (pos : Position) :
    print spell (.defineMacro name { p with fixed := self :: p.fixed } pos) =
      Token.keyword .macroWord :: Token.name name :: p.print spell := by
  cases p
  rfl

end Statement

end Printing

/-! ## Programs without places -/

mutual

/-- An expression without its places. -/
def Expression.bare : Expression → Expression
  | .literal v _ => .literal v .outside
  | .variable name _ => .variable name .outside
  | .unary op e _ => .unary op e.bare .outside
  | .binary op left right _ => .binary op left.bare right.bare .outside
  | .assign target value _ => .assign target.bare value.bare .outside
  | .call callee arguments _ => .call callee.bare (Expression.allBare arguments) .outside
  | .member target name _ => .member target.bare name .outside
  | .index target key _ => .index target.bare key.bare .outside
  | .procedure p => .procedure p.bare
  | .array elements _ => .array (Expression.allBare elements) .outside
  | .object members _ => .object (Declaration.allBare members) .outside
  | .splat e _ => .splat e.bare .outside
  | .mixin tokens _ => .mixin (tokens.map fun t => ⟨t.token, .outside⟩) .outside

/-- Expressions without their places. -/
def Expression.allBare : List Expression → List Expression
  | [] => []
  | e :: es => e.bare :: Expression.allBare es

/-- An optional expression without its places. -/
def Expression.optionBare : Option Expression → Option Expression
  | none => none
  | some e => some e.bare

/-- A declaration without its places. -/
def Declaration.bare : Declaration → Declaration
  | ⟨name, type, value, _⟩ =>
    ⟨name, Expression.optionBare type, Expression.optionBare value, .outside⟩

/-- Declarations without their places. -/
def Declaration.allBare : List Declaration → List Declaration
  | [] => []
  | d :: ds => d.bare :: Declaration.allBare ds

/-- A parameter without its places. -/
def Parameter.bare : Parameter → Parameter
  | ⟨name, type, _⟩ => ⟨name, Expression.optionBare type, .outside⟩

/-- Parameters without their places. -/
def Parameter.allBare : List Parameter → List Parameter
  | [] => []
  | p :: ps => p.bare :: Parameter.allBare ps

/-- An optional parameter without its places. -/
def Parameter.optionBare : Option Parameter → Option Parameter
  | none => none
  | some p => some p.bare

/-- A procedure without its places. -/
def Procedure.bare : Procedure → Procedure
  | ⟨fixed, rest, body, _, origin⟩ =>
    ⟨Parameter.allBare fixed, Parameter.optionBare rest, body.bare, .outside, origin⟩

/-- A block without its places. -/
def Block.bare : Block → Block
  | ⟨statements, _⟩ => ⟨Statement.allBare statements, .outside⟩

/-- An optional block without its places. -/
def Block.optionBare : Option Block → Option Block
  | none => none
  | some b => some b.bare

/-- A branch without its places. -/
def Branch.bare : Branch → Branch
  | ⟨condition, body⟩ => ⟨condition.bare, body.bare⟩

/-- Branches without their places. -/
def Branch.allBare : List Branch → List Branch
  | [] => []
  | b :: bs => b.bare :: Branch.allBare bs

/-- A statement without its places. -/
def Statement.bare : Statement → Statement
  | .expression e => .expression e.bare
  | .declare d => .declare d.bare
  | .block b => .block b.bare
  | .ifElse branches otherwise _ =>
    .ifElse (Branch.allBare branches) (Block.optionBare otherwise) .outside
  | .whileDo condition body _ => .whileDo condition.bare body.bare .outside
  | .forIn name iterable body _ => .forIn name iterable.bare body.bare .outside
  | .returnWith e _ => .returnWith e.bare .outside
  | .importFile path file statements _ =>
    .importFile path file (Statement.allBare statements) .outside
  | .defineMacro name body _ => .defineMacro name body.bare .outside
  | .empty _ => .empty .outside

/-- Statements without their places. -/
def Statement.allBare : List Statement → List Statement
  | [] => []
  | s :: ss => s.bare :: Statement.allBare ss

end

end ProtoScript
