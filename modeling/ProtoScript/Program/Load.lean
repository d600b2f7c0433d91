import ProtoScript.Program.Tree

/-!
# Loading a program

Before a program runs, the origin of each text in it (its own, and that of each import) is written
into the procedures that were read from that text. Nothing else of the program changes. After that,
two procedures of one program have the same origin and the same place only if they are the same
procedure.
-/

namespace ProtoScript

/-- The origin of the text that an import at the given place brings in. -/
def Origin.through (o : Origin) (pos : Position) : Origin :=
  { o with trail := pos :: o.trail }

mutual

/-- Writes the origin into the procedures of an expression. -/
def Expression.loaded (o : Origin) : Expression → Expression
  | .literal value pos => .literal value pos
  | .variable name pos => .variable name pos
  | .unary op operand pos => .unary op (operand.loaded o) pos
  | .binary op left right pos => .binary op (left.loaded o) (right.loaded o) pos
  | .assign target value pos => .assign (target.loaded o) (value.loaded o) pos
  | .call callee arguments pos => .call (callee.loaded o) (Expression.allLoaded o arguments) pos
  | .member target name pos => .member (target.loaded o) name pos
  | .index target key pos => .index (target.loaded o) (key.loaded o) pos
  | .procedure p => .procedure (p.loaded o)
  | .array elements pos => .array (Expression.allLoaded o elements) pos
  | .object members pos => .object (Declaration.allLoaded o members) pos
  | .splat operand pos => .splat (operand.loaded o) pos
  | .mixin tokens pos => .mixin tokens pos

/-- Writes the origin into the procedures of several expressions. -/
def Expression.allLoaded (o : Origin) : List Expression → List Expression
  | [] => []
  | e :: es => e.loaded o :: Expression.allLoaded o es

/-- Writes the origin into the procedures of an optional expression. -/
def Expression.optionLoaded (o : Origin) : Option Expression → Option Expression
  | none => none
  | some e => some (e.loaded o)

/-- Writes the origin into the procedures of a declaration. -/
def Declaration.loaded (o : Origin) : Declaration → Declaration
  | ⟨name, type, value, pos⟩ =>
    ⟨name, Expression.optionLoaded o type, Expression.optionLoaded o value, pos⟩

/-- Writes the origin into the procedures of several declarations. -/
def Declaration.allLoaded (o : Origin) : List Declaration → List Declaration
  | [] => []
  | d :: ds => d.loaded o :: Declaration.allLoaded o ds

/-- Writes the origin into the procedures of a parameter's type. -/
def Parameter.loaded (o : Origin) : Parameter → Parameter
  | ⟨name, type, pos⟩ => ⟨name, Expression.optionLoaded o type, pos⟩

/-- Writes the origin into the procedures of several parameters' types. -/
def Parameter.allLoaded (o : Origin) : List Parameter → List Parameter
  | [] => []
  | p :: ps => p.loaded o :: Parameter.allLoaded o ps

/-- Writes the origin into the procedures of an optional parameter's type. -/
def Parameter.optionLoaded (o : Origin) : Option Parameter → Option Parameter
  | none => none
  | some p => some (p.loaded o)

/-- Writes the origin into a procedure and those inside it. -/
def Procedure.loaded (o : Origin) : Procedure → Procedure
  | ⟨fixed, rest, body, pos, _⟩ =>
    ⟨Parameter.allLoaded o fixed, Parameter.optionLoaded o rest, body.loaded o, pos, o⟩

/-- Writes the origin into the procedures of a block. -/
def Block.loaded (o : Origin) : Block → Block
  | ⟨statements, pos⟩ => ⟨Statement.allLoaded o statements, pos⟩

/-- Writes the origin into the procedures of an optional block. -/
def Block.optionLoaded (o : Origin) : Option Block → Option Block
  | none => none
  | some b => some (b.loaded o)

/-- Writes the origin into the procedures of a branch. -/
def Branch.loaded (o : Origin) : Branch → Branch
  | ⟨condition, body⟩ => ⟨condition.loaded o, body.loaded o⟩

/-- Writes the origin into the procedures of several branches. -/
def Branch.allLoaded (o : Origin) : List Branch → List Branch
  | [] => []
  | b :: bs => b.loaded o :: Branch.allLoaded o bs

/-- Writes the origin into the procedures of a statement. The statements of an import have an origin
of their own. -/
def Statement.loaded (o : Origin) : Statement → Statement
  | .expression e => .expression (e.loaded o)
  | .declare d => .declare (d.loaded o)
  | .block b => .block (b.loaded o)
  | .ifElse branches otherwise pos =>
    .ifElse (Branch.allLoaded o branches) (Block.optionLoaded o otherwise) pos
  | .whileDo condition body pos => .whileDo (condition.loaded o) (body.loaded o) pos
  | .forIn name iterable body pos => .forIn name (iterable.loaded o) (body.loaded o) pos
  | .returnWith value pos => .returnWith (value.loaded o) pos
  | .importFile path file statements pos =>
    .importFile path file (Statement.allLoaded (o.through pos) statements) pos
  | .defineMacro name body pos => .defineMacro name (body.loaded o) pos
  | .empty pos => .empty pos

/-- Writes the origin into the procedures of several statements. -/
def Statement.allLoaded (o : Origin) : List Statement → List Statement
  | [] => []
  | s :: ss => s.loaded o :: Statement.allLoaded o ss

end

/-- The statements of the program with the given load number, ready to run. -/
def loadProgram (load : Nat) (statements : List Statement) : List Statement :=
  statements.mapIdx fun i s => s.loaded ⟨load, i, []⟩

/-! ## Only origins change

An origin that is written in replaces the one that was there, so what was written before does not show.
This says that nothing else of a program was changed by it. -/

mutual

/-- The last origin that is written into an expression replaces all others. -/
theorem Expression.loaded_loaded (e : Expression) (o o' : Origin) :
    (e.loaded o).loaded o' = e.loaded o' := by
  cases e with
  | literal value pos => rfl
  | «variable» name pos => rfl
  | unary op operand pos => simp only [Expression.loaded, operand.loaded_loaded]
  | binary op left right pos =>
    simp only [Expression.loaded, left.loaded_loaded, right.loaded_loaded]
  | assign target value pos =>
    simp only [Expression.loaded, target.loaded_loaded, value.loaded_loaded]
  | call callee arguments pos =>
    simp only [Expression.loaded, callee.loaded_loaded, Expression.allLoaded_allLoaded arguments]
  | member target name pos => simp only [Expression.loaded, target.loaded_loaded]
  | index target key pos =>
    simp only [Expression.loaded, target.loaded_loaded, key.loaded_loaded]
  | procedure p => simp only [Expression.loaded, p.loaded_loaded]
  | array elements pos => simp only [Expression.loaded, Expression.allLoaded_allLoaded elements]
  | object members pos => simp only [Expression.loaded, Declaration.allLoaded_allLoaded members]
  | splat operand pos => simp only [Expression.loaded, operand.loaded_loaded]
  | mixin tokens pos => rfl

/-- The last origin that is written into several expressions replaces all others. -/
theorem Expression.allLoaded_allLoaded (es : List Expression) (o o' : Origin) :
    Expression.allLoaded o' (Expression.allLoaded o es) = Expression.allLoaded o' es := by
  cases es with
  | nil => rfl
  | cons e es =>
    simp only [Expression.allLoaded, e.loaded_loaded, Expression.allLoaded_allLoaded es]

/-- The last origin that is written into an optional expression replaces all others. -/
theorem Expression.optionLoaded_optionLoaded (e : Option Expression) (o o' : Origin) :
    Expression.optionLoaded o' (Expression.optionLoaded o e) = Expression.optionLoaded o' e := by
  cases e with
  | none => rfl
  | some e => simp only [Expression.optionLoaded, e.loaded_loaded]

/-- The last origin that is written into a declaration replaces all others. -/
theorem Declaration.loaded_loaded (d : Declaration) (o o' : Origin) :
    (d.loaded o).loaded o' = d.loaded o' := by
  obtain ⟨name, type, value, pos⟩ := d
  simp only [Declaration.loaded, Expression.optionLoaded_optionLoaded type,
    Expression.optionLoaded_optionLoaded value]

/-- The last origin that is written into several declarations replaces all others. -/
theorem Declaration.allLoaded_allLoaded (ds : List Declaration) (o o' : Origin) :
    Declaration.allLoaded o' (Declaration.allLoaded o ds) = Declaration.allLoaded o' ds := by
  cases ds with
  | nil => rfl
  | cons d ds =>
    simp only [Declaration.allLoaded, d.loaded_loaded, Declaration.allLoaded_allLoaded ds]

/-- The last origin that is written into a parameter replaces all others. -/
theorem Parameter.loaded_loaded (p : Parameter) (o o' : Origin) :
    (p.loaded o).loaded o' = p.loaded o' := by
  obtain ⟨name, type, pos⟩ := p
  simp only [Parameter.loaded, Expression.optionLoaded_optionLoaded type]

/-- The last origin that is written into several parameters replaces all others. -/
theorem Parameter.allLoaded_allLoaded (ps : List Parameter) (o o' : Origin) :
    Parameter.allLoaded o' (Parameter.allLoaded o ps) = Parameter.allLoaded o' ps := by
  cases ps with
  | nil => rfl
  | cons p ps =>
    simp only [Parameter.allLoaded, p.loaded_loaded, Parameter.allLoaded_allLoaded ps]

/-- The last origin that is written into an optional parameter replaces all others. -/
theorem Parameter.optionLoaded_optionLoaded (p : Option Parameter) (o o' : Origin) :
    Parameter.optionLoaded o' (Parameter.optionLoaded o p) = Parameter.optionLoaded o' p := by
  cases p with
  | none => rfl
  | some p => simp only [Parameter.optionLoaded, p.loaded_loaded]

/-- The last origin that is written into a procedure replaces all others. -/
theorem Procedure.loaded_loaded (p : Procedure) (o o' : Origin) :
    (p.loaded o).loaded o' = p.loaded o' := by
  obtain ⟨fixed, rest, body, pos, origin⟩ := p
  simp only [Procedure.loaded, Parameter.allLoaded_allLoaded fixed,
    Parameter.optionLoaded_optionLoaded rest, body.loaded_loaded]

/-- The last origin that is written into a block replaces all others. -/
theorem Block.loaded_loaded (b : Block) (o o' : Origin) : (b.loaded o).loaded o' = b.loaded o' := by
  obtain ⟨statements, pos⟩ := b
  simp only [Block.loaded, Statement.allLoaded_allLoaded statements]

/-- The last origin that is written into an optional block replaces all others. -/
theorem Block.optionLoaded_optionLoaded (b : Option Block) (o o' : Origin) :
    Block.optionLoaded o' (Block.optionLoaded o b) = Block.optionLoaded o' b := by
  cases b with
  | none => rfl
  | some b => simp only [Block.optionLoaded, b.loaded_loaded]

/-- The last origin that is written into a branch replaces all others. -/
theorem Branch.loaded_loaded (b : Branch) (o o' : Origin) : (b.loaded o).loaded o' = b.loaded o' := by
  obtain ⟨condition, body⟩ := b
  simp only [Branch.loaded, condition.loaded_loaded, body.loaded_loaded]

/-- The last origin that is written into several branches replaces all others. -/
theorem Branch.allLoaded_allLoaded (bs : List Branch) (o o' : Origin) :
    Branch.allLoaded o' (Branch.allLoaded o bs) = Branch.allLoaded o' bs := by
  cases bs with
  | nil => rfl
  | cons b bs => simp only [Branch.allLoaded, b.loaded_loaded, Branch.allLoaded_allLoaded bs]

/-- The last origin that is written into a statement replaces all others. -/
theorem Statement.loaded_loaded (s : Statement) (o o' : Origin) :
    (s.loaded o).loaded o' = s.loaded o' := by
  cases s with
  | expression e => simp only [Statement.loaded, e.loaded_loaded]
  | declare d => simp only [Statement.loaded, d.loaded_loaded]
  | block b => simp only [Statement.loaded, b.loaded_loaded]
  | ifElse branches otherwise pos =>
    simp only [Statement.loaded, Branch.allLoaded_allLoaded branches,
      Block.optionLoaded_optionLoaded otherwise]
  | whileDo condition body pos =>
    simp only [Statement.loaded, condition.loaded_loaded, body.loaded_loaded]
  | forIn name iterable body pos =>
    simp only [Statement.loaded, iterable.loaded_loaded, body.loaded_loaded]
  | returnWith value pos => simp only [Statement.loaded, value.loaded_loaded]
  | importFile path file statements pos =>
    simp only [Statement.loaded, Statement.allLoaded_allLoaded statements]
  | defineMacro name body pos => simp only [Statement.loaded, body.loaded_loaded]
  | empty pos => rfl

/-- The last origin that is written into several statements replaces all others. -/
theorem Statement.allLoaded_allLoaded (ss : List Statement) (o o' : Origin) :
    Statement.allLoaded o' (Statement.allLoaded o ss) = Statement.allLoaded o' ss := by
  cases ss with
  | nil => rfl
  | cons s ss =>
    simp only [Statement.allLoaded, s.loaded_loaded, Statement.allLoaded_allLoaded ss]

end

/-- Loading keeps how many statements there are and their order, and each of them is what it was but
for the origins in it. -/
theorem map_loaded_loadProgram (load : Nat) (ss : List Statement) (o : Origin) :
    (loadProgram load ss).map (Statement.loaded o) = ss.map (Statement.loaded o) := by
  refine List.ext_getElem? fun i => ?_
  rw [List.getElem?_map, List.getElem?_map, loadProgram, List.getElem?_mapIdx, Option.map_map]
  cases ss[i]? with
  | none => rfl
  | some s => exact congrArg some (s.loaded_loaded ⟨load, i, []⟩ o)

end ProtoScript
