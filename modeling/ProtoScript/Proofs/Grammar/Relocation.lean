import ProtoScript.Grammar.Expression
import ProtoScript.Proofs.Grammar.Print

/-!
# Programs at other places

A relocation says where each place of a text goes, and what becomes of what does not stand in the text
itself: of the errors that were recorded, and of the statements that an import brings in.  Tokens,
programs and readers can be relocated.  What does not depend on places, or changes them all in the same
way, commutes with relocation.
-/

namespace ProtoScript

/-- Where the places of a text go, what becomes of recorded errors, and what becomes of the statements
of an imported file.  Two readings need not agree any more once one of the errors in `final` was
recorded. -/
structure Relocation where
  place : Position → Position
  error : Diagnostic → Diagnostic
  imported : String → List Statement → List Statement
  final : Diagnostic → Prop

/-- A token at its new place. -/
def Lexeme.relocated (τ : Relocation) (t : Lexeme) : Lexeme :=
  ⟨t.token, τ.place t.pos⟩

/-! ## Relocating programs -/

mutual

/-- An expression at its new place. -/
def Expression.relocated (τ : Relocation) : Expression → Expression
  | .literal v pos => .literal v (τ.place pos)
  | .variable name pos => .variable name (τ.place pos)
  | .unary op e pos => .unary op (e.relocated τ) (τ.place pos)
  | .binary op left right pos => .binary op (left.relocated τ) (right.relocated τ) (τ.place pos)
  | .assign target value pos => .assign (target.relocated τ) (value.relocated τ) (τ.place pos)
  | .call callee arguments pos =>
    .call (callee.relocated τ) (Expression.allRelocated τ arguments) (τ.place pos)
  | .member target name pos => .member (target.relocated τ) name (τ.place pos)
  | .index target key pos => .index (target.relocated τ) (key.relocated τ) (τ.place pos)
  | .procedure p => .procedure (p.relocated τ)
  | .array elements pos => .array (Expression.allRelocated τ elements) (τ.place pos)
  | .object members pos => .object (Declaration.allRelocated τ members) (τ.place pos)
  | .splat e pos => .splat (e.relocated τ) (τ.place pos)
  | .mixin tokens pos => .mixin (tokens.map (Lexeme.relocated τ)) (τ.place pos)

/-- Expressions at their new places. -/
def Expression.allRelocated (τ : Relocation) : List Expression → List Expression
  | [] => []
  | e :: es => e.relocated τ :: Expression.allRelocated τ es

/-- An optional expression at its new place. -/
def Expression.optionRelocated (τ : Relocation) : Option Expression → Option Expression
  | none => none
  | some e => some (e.relocated τ)

/-- A declaration at its new place. -/
def Declaration.relocated (τ : Relocation) : Declaration → Declaration
  | ⟨name, type, value, pos⟩ =>
    ⟨name, Expression.optionRelocated τ type, Expression.optionRelocated τ value, τ.place pos⟩

/-- Declarations at their new places. -/
def Declaration.allRelocated (τ : Relocation) : List Declaration → List Declaration
  | [] => []
  | d :: ds => d.relocated τ :: Declaration.allRelocated τ ds

/-- A parameter at its new place. -/
def Parameter.relocated (τ : Relocation) : Parameter → Parameter
  | ⟨name, type, pos⟩ => ⟨name, Expression.optionRelocated τ type, τ.place pos⟩

/-- Parameters at their new places. -/
def Parameter.allRelocated (τ : Relocation) : List Parameter → List Parameter
  | [] => []
  | p :: ps => p.relocated τ :: Parameter.allRelocated τ ps

/-- An optional parameter at its new place. -/
def Parameter.optionRelocated (τ : Relocation) : Option Parameter → Option Parameter
  | none => none
  | some p => some (p.relocated τ)

/-- A procedure at its new place. -/
def Procedure.relocated (τ : Relocation) : Procedure → Procedure
  | ⟨fixed, rest, body, pos, origin⟩ =>
    ⟨Parameter.allRelocated τ fixed, Parameter.optionRelocated τ rest, body.relocated τ, τ.place pos,
      origin⟩

/-- A block at its new place. -/
def Block.relocated (τ : Relocation) : Block → Block
  | ⟨statements, pos⟩ => ⟨Statement.allRelocated τ statements, τ.place pos⟩

/-- An optional block at its new place. -/
def Block.optionRelocated (τ : Relocation) : Option Block → Option Block
  | none => none
  | some b => some (b.relocated τ)

/-- A branch at its new place. -/
def Branch.relocated (τ : Relocation) : Branch → Branch
  | ⟨condition, body⟩ => ⟨condition.relocated τ, body.relocated τ⟩

/-- Branches at their new places. -/
def Branch.allRelocated (τ : Relocation) : List Branch → List Branch
  | [] => []
  | b :: bs => b.relocated τ :: Branch.allRelocated τ bs

/-- A statement at its new place.  The statements of an import have places in another file. -/
def Statement.relocated (τ : Relocation) : Statement → Statement
  | .expression e => .expression (e.relocated τ)
  | .declare d => .declare (d.relocated τ)
  | .block b => .block (b.relocated τ)
  | .ifElse branches otherwise pos =>
    .ifElse (Branch.allRelocated τ branches) (Block.optionRelocated τ otherwise) (τ.place pos)
  | .whileDo condition body pos => .whileDo (condition.relocated τ) (body.relocated τ) (τ.place pos)
  | .forIn name iterable body pos =>
    .forIn name (iterable.relocated τ) (body.relocated τ) (τ.place pos)
  | .returnWith e pos => .returnWith (e.relocated τ) (τ.place pos)
  | .importFile path file statements pos =>
    .importFile path file (τ.imported path statements) (τ.place pos)
  | .defineMacro name body pos => .defineMacro name (body.relocated τ) (τ.place pos)
  | .empty pos => .empty (τ.place pos)

/-- Statements at their new places. -/
def Statement.allRelocated (τ : Relocation) : List Statement → List Statement
  | [] => []
  | s :: ss => s.relocated τ :: Statement.allRelocated τ ss

end

/-- Statements are relocated one by one. -/
theorem Statement.allRelocated_eq_map (τ : Relocation) (ss : List Statement) :
    Statement.allRelocated τ ss = ss.map (Statement.relocated τ) := by
  induction ss with
  | nil => rfl
  | cons s ss ih => rw [Statement.allRelocated, ih, List.map_cons]

/-- The place of an expression is relocated with it. -/
theorem Expression.pos_relocated (τ : Relocation) (e : Expression) :
    (e.relocated τ).pos = τ.place e.pos := by
  cases e with
  | procedure p =>
    obtain ⟨fixed, rest, body, pos, origin⟩ := p
    simp only [Expression.relocated, Procedure.relocated, Expression.pos]
  | _ => simp only [Expression.relocated, Expression.pos]

/-- What can be assigned to can be assigned to anywhere. -/
theorem Expression.isTarget_relocated (τ : Relocation) (e : Expression) :
    (e.relocated τ).isTarget = e.isTarget := by
  cases e <;> simp only [Expression.relocated, Expression.isTarget]

/-! ## Everything stays in its place -/

/-- Nothing is relocated. -/
def Relocation.identity (final : Diagnostic → Prop) : Relocation :=
  ⟨id, id, fun _ => id, final⟩

section Identity

variable {final : Diagnostic → Prop}

/-- Tokens stay where they are. -/
theorem Lexeme.map_relocated_identity (ts : List Lexeme) :
    ts.map (Lexeme.relocated (.identity final)) = ts := by
  induction ts with
  | nil => rfl
  | cons t ts ih => rw [List.map_cons, ih]; rfl

mutual

/-- An expression stays as it is. -/
theorem Expression.relocated_identity (e : Expression) : e.relocated (.identity final) = e := by
  cases e with
  | literal v pos => rfl
  | «variable» name pos => rfl
  | unary op e pos =>
    rw [Expression.relocated, e.relocated_identity]
    rfl
  | binary op left right pos =>
    rw [Expression.relocated, left.relocated_identity, right.relocated_identity]
    rfl
  | assign target value pos =>
    rw [Expression.relocated, target.relocated_identity, value.relocated_identity]
    rfl
  | call callee arguments pos =>
    rw [Expression.relocated, callee.relocated_identity, Expression.allRelocated_identity arguments]
    rfl
  | member target name pos =>
    rw [Expression.relocated, target.relocated_identity]
    rfl
  | index target key pos =>
    rw [Expression.relocated, target.relocated_identity, key.relocated_identity]
    rfl
  | procedure p => rw [Expression.relocated, p.relocated_identity]
  | array elements pos =>
    rw [Expression.relocated, Expression.allRelocated_identity elements]
    rfl
  | object members pos =>
    rw [Expression.relocated, Declaration.allRelocated_identity members]
    rfl
  | splat e pos =>
    rw [Expression.relocated, e.relocated_identity]
    rfl
  | mixin tokens pos =>
    rw [Expression.relocated, Lexeme.map_relocated_identity]
    rfl

/-- Expressions stay as they are. -/
theorem Expression.allRelocated_identity (es : List Expression) :
    Expression.allRelocated (.identity final) es = es := by
  cases es with
  | nil => rfl
  | cons e es =>
    rw [Expression.allRelocated, e.relocated_identity, Expression.allRelocated_identity es]

/-- An optional expression stays as it is. -/
theorem Expression.optionRelocated_identity (e : Option Expression) :
    Expression.optionRelocated (.identity final) e = e := by
  cases e with
  | none => rfl
  | some e => rw [Expression.optionRelocated, e.relocated_identity]

/-- A declaration stays as it is. -/
theorem Declaration.relocated_identity (d : Declaration) : d.relocated (.identity final) = d := by
  obtain ⟨name, type, value, pos⟩ := d
  rw [Declaration.relocated, Expression.optionRelocated_identity type,
    Expression.optionRelocated_identity value]
  rfl

/-- Declarations stay as they are. -/
theorem Declaration.allRelocated_identity (ds : List Declaration) :
    Declaration.allRelocated (.identity final) ds = ds := by
  cases ds with
  | nil => rfl
  | cons d ds =>
    rw [Declaration.allRelocated, d.relocated_identity, Declaration.allRelocated_identity ds]

/-- A parameter stays as it is. -/
theorem Parameter.relocated_identity (p : Parameter) : p.relocated (.identity final) = p := by
  obtain ⟨name, type, pos⟩ := p
  rw [Parameter.relocated, Expression.optionRelocated_identity type]
  rfl

/-- Parameters stay as they are. -/
theorem Parameter.allRelocated_identity (ps : List Parameter) :
    Parameter.allRelocated (.identity final) ps = ps := by
  cases ps with
  | nil => rfl
  | cons p ps =>
    rw [Parameter.allRelocated, p.relocated_identity, Parameter.allRelocated_identity ps]

/-- An optional parameter stays as it is. -/
theorem Parameter.optionRelocated_identity (p : Option Parameter) :
    Parameter.optionRelocated (.identity final) p = p := by
  cases p with
  | none => rfl
  | some p => rw [Parameter.optionRelocated, p.relocated_identity]

/-- A procedure stays as it is. -/
theorem Procedure.relocated_identity (p : Procedure) : p.relocated (.identity final) = p := by
  obtain ⟨fixed, rest, body, pos, origin⟩ := p
  rw [Procedure.relocated, Parameter.allRelocated_identity fixed,
    Parameter.optionRelocated_identity rest,
    body.relocated_identity]
  rfl

/-- A block stays as it is. -/
theorem Block.relocated_identity (b : Block) : b.relocated (.identity final) = b := by
  obtain ⟨statements, pos⟩ := b
  rw [Block.relocated, Statement.allRelocated_identity statements]
  rfl

/-- An optional block stays as it is. -/
theorem Block.optionRelocated_identity (b : Option Block) :
    Block.optionRelocated (.identity final) b = b := by
  cases b with
  | none => rfl
  | some b => rw [Block.optionRelocated, b.relocated_identity]

/-- A branch stays as it is. -/
theorem Branch.relocated_identity (b : Branch) : b.relocated (.identity final) = b := by
  obtain ⟨condition, body⟩ := b
  rw [Branch.relocated, condition.relocated_identity, body.relocated_identity]

/-- Branches stay as they are. -/
theorem Branch.allRelocated_identity (bs : List Branch) :
    Branch.allRelocated (.identity final) bs = bs := by
  cases bs with
  | nil => rfl
  | cons b bs => rw [Branch.allRelocated, b.relocated_identity, Branch.allRelocated_identity bs]

/-- A statement stays as it is. -/
theorem Statement.relocated_identity (s : Statement) : s.relocated (.identity final) = s := by
  cases s with
  | expression e => rw [Statement.relocated, e.relocated_identity]
  | declare d => rw [Statement.relocated, d.relocated_identity]
  | block b => rw [Statement.relocated, b.relocated_identity]
  | ifElse branches otherwise pos =>
    rw [Statement.relocated, Branch.allRelocated_identity branches,
      Block.optionRelocated_identity otherwise]
    rfl
  | whileDo condition body pos =>
    rw [Statement.relocated, condition.relocated_identity, body.relocated_identity]
    rfl
  | forIn name iterable body pos =>
    rw [Statement.relocated, iterable.relocated_identity, body.relocated_identity]
    rfl
  | returnWith e pos =>
    rw [Statement.relocated, e.relocated_identity]
    rfl
  | importFile path file statements pos => rfl
  | defineMacro name body pos =>
    rw [Statement.relocated, body.relocated_identity]
    rfl
  | empty pos => rfl

/-- Statements stay as they are. -/
theorem Statement.allRelocated_identity (ss : List Statement) :
    Statement.allRelocated (.identity final) ss = ss := by
  cases ss with
  | nil => rfl
  | cons s ss =>
    rw [Statement.allRelocated, s.relocated_identity, Statement.allRelocated_identity ss]

end

end Identity

/-! ## Places are dropped -/

/-- A diagnostic without its place. -/
def Diagnostic.bare (d : Diagnostic) : Diagnostic :=
  { d with pos := .outside }

/-- All places are dropped. -/
def Relocation.bare : Relocation :=
  ⟨fun _ => .outside, Diagnostic.bare, fun _ => Statement.allBare, fun _ => False⟩

mutual

/-- An expression loses its places. -/
theorem Expression.relocated_bare (e : Expression) : e.relocated .bare = e.bare := by
  cases e with
  | literal v pos => rfl
  | «variable» name pos => rfl
  | unary op e pos =>
    rw [Expression.relocated, Expression.bare, e.relocated_bare]
    rfl
  | binary op left right pos =>
    rw [Expression.relocated, Expression.bare, left.relocated_bare, right.relocated_bare]
    rfl
  | assign target value pos =>
    rw [Expression.relocated, Expression.bare, target.relocated_bare, value.relocated_bare]
    rfl
  | call callee arguments pos =>
    rw [Expression.relocated, Expression.bare, callee.relocated_bare,
      Expression.allRelocated_bare arguments]
    rfl
  | member target name pos =>
    rw [Expression.relocated, Expression.bare, target.relocated_bare]
    rfl
  | index target key pos =>
    rw [Expression.relocated, Expression.bare, target.relocated_bare, key.relocated_bare]
    rfl
  | procedure p => rw [Expression.relocated, Expression.bare, p.relocated_bare]
  | array elements pos =>
    rw [Expression.relocated, Expression.bare, Expression.allRelocated_bare elements]
    rfl
  | object members pos =>
    rw [Expression.relocated, Expression.bare, Declaration.allRelocated_bare members]
    rfl
  | splat e pos =>
    rw [Expression.relocated, Expression.bare, e.relocated_bare]
    rfl
  | mixin tokens pos => rfl

/-- Expressions lose their places. -/
theorem Expression.allRelocated_bare (es : List Expression) :
    Expression.allRelocated .bare es = Expression.allBare es := by
  cases es with
  | nil => rfl
  | cons e es =>
    rw [Expression.allRelocated, Expression.allBare, e.relocated_bare,
      Expression.allRelocated_bare es]

/-- An optional expression loses its places. -/
theorem Expression.optionRelocated_bare (e : Option Expression) :
    Expression.optionRelocated .bare e = Expression.optionBare e := by
  cases e with
  | none => rfl
  | some e => rw [Expression.optionRelocated, Expression.optionBare, e.relocated_bare]

/-- A declaration loses its places. -/
theorem Declaration.relocated_bare (d : Declaration) : d.relocated .bare = d.bare := by
  obtain ⟨name, type, value, pos⟩ := d
  rw [Declaration.relocated, Declaration.bare, Expression.optionRelocated_bare type,
    Expression.optionRelocated_bare value]
  rfl

/-- Declarations lose their places. -/
theorem Declaration.allRelocated_bare (ds : List Declaration) :
    Declaration.allRelocated .bare ds = Declaration.allBare ds := by
  cases ds with
  | nil => rfl
  | cons d ds =>
    rw [Declaration.allRelocated, Declaration.allBare, d.relocated_bare,
      Declaration.allRelocated_bare ds]

/-- A parameter loses its places. -/
theorem Parameter.relocated_bare (p : Parameter) : p.relocated .bare = p.bare := by
  obtain ⟨name, type, pos⟩ := p
  rw [Parameter.relocated, Parameter.bare, Expression.optionRelocated_bare type]
  rfl

/-- Parameters lose their places. -/
theorem Parameter.allRelocated_bare (ps : List Parameter) :
    Parameter.allRelocated .bare ps = Parameter.allBare ps := by
  cases ps with
  | nil => rfl
  | cons p ps =>
    rw [Parameter.allRelocated, Parameter.allBare, p.relocated_bare, Parameter.allRelocated_bare ps]

/-- An optional parameter loses its places. -/
theorem Parameter.optionRelocated_bare (p : Option Parameter) :
    Parameter.optionRelocated .bare p = Parameter.optionBare p := by
  cases p with
  | none => rfl
  | some p => rw [Parameter.optionRelocated, Parameter.optionBare, p.relocated_bare]

/-- A procedure loses its places. -/
theorem Procedure.relocated_bare (p : Procedure) : p.relocated .bare = p.bare := by
  obtain ⟨fixed, rest, body, pos, origin⟩ := p
  rw [Procedure.relocated, Procedure.bare, Parameter.allRelocated_bare fixed,
    Parameter.optionRelocated_bare rest,
    body.relocated_bare]
  rfl

/-- A block loses its places. -/
theorem Block.relocated_bare (b : Block) : b.relocated .bare = b.bare := by
  obtain ⟨statements, pos⟩ := b
  rw [Block.relocated, Block.bare, Statement.allRelocated_bare statements]
  rfl

/-- An optional block loses its places. -/
theorem Block.optionRelocated_bare (b : Option Block) :
    Block.optionRelocated .bare b = Block.optionBare b := by
  cases b with
  | none => rfl
  | some b => rw [Block.optionRelocated, Block.optionBare, b.relocated_bare]

/-- A branch loses its places. -/
theorem Branch.relocated_bare (b : Branch) : b.relocated .bare = b.bare := by
  obtain ⟨condition, body⟩ := b
  rw [Branch.relocated, Branch.bare, condition.relocated_bare, body.relocated_bare]

/-- Branches lose their places. -/
theorem Branch.allRelocated_bare (bs : List Branch) :
    Branch.allRelocated .bare bs = Branch.allBare bs := by
  cases bs with
  | nil => rfl
  | cons b bs =>
    rw [Branch.allRelocated, Branch.allBare, b.relocated_bare, Branch.allRelocated_bare bs]

/-- A statement loses its places. -/
theorem Statement.relocated_bare (s : Statement) : s.relocated .bare = s.bare := by
  cases s with
  | expression e => rw [Statement.relocated, Statement.bare, e.relocated_bare]
  | declare d => rw [Statement.relocated, Statement.bare, d.relocated_bare]
  | block b => rw [Statement.relocated, Statement.bare, b.relocated_bare]
  | ifElse branches otherwise pos =>
    rw [Statement.relocated, Statement.bare, Branch.allRelocated_bare branches,
      Block.optionRelocated_bare otherwise]
    rfl
  | whileDo condition body pos =>
    rw [Statement.relocated, Statement.bare, condition.relocated_bare, body.relocated_bare]
    rfl
  | forIn name iterable body pos =>
    rw [Statement.relocated, Statement.bare, iterable.relocated_bare, body.relocated_bare]
    rfl
  | returnWith e pos =>
    rw [Statement.relocated, Statement.bare, e.relocated_bare]
    rfl
  | importFile path file statements pos => rfl
  | defineMacro name body pos =>
    rw [Statement.relocated, Statement.bare, body.relocated_bare]
    rfl
  | empty pos => rfl

/-- Statements lose their places. -/
theorem Statement.allRelocated_bare (ss : List Statement) :
    Statement.allRelocated .bare ss = Statement.allBare ss := by
  cases ss with
  | nil => rfl
  | cons s ss =>
    rw [Statement.allRelocated, Statement.allBare, s.relocated_bare, Statement.allRelocated_bare ss]

end

end ProtoScript
