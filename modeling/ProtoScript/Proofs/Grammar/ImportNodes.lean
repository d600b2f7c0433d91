import ProtoScript.Proofs.Grammar.Independence

/-!
# Imports in programs

The imports that stand in a program itself, not in a file that it imports.  Every one of them comes from
what the reader was told the path brings in: a reader treats the statements of an import as they are, so
if statements of no import that was brought in are replaced by others, nothing changes in what is read.
-/

namespace ProtoScript

/-! ## The imports of a program -/

mutual

/-- The imports in an expression: their paths and their statements. -/
def Expression.imports : Expression → List (String × List Statement)
  | .literal .. | .variable .. | .mixin .. => []
  | .unary _ e _ => e.imports
  | .binary _ left right _ => left.imports ++ right.imports
  | .assign target value _ => target.imports ++ value.imports
  | .call callee arguments _ => callee.imports ++ Expression.allImports arguments
  | .member target _ _ => target.imports
  | .index target key _ => target.imports ++ key.imports
  | .procedure p => p.imports
  | .array elements _ => Expression.allImports elements
  | .object members _ => Declaration.allImports members
  | .splat e _ => e.imports

/-- The imports in expressions. -/
def Expression.allImports : List Expression → List (String × List Statement)
  | [] => []
  | e :: es => e.imports ++ Expression.allImports es

/-- The imports in an optional expression. -/
def Expression.optionImports : Option Expression → List (String × List Statement)
  | none => []
  | some e => e.imports

/-- The imports in a declaration. -/
def Declaration.imports : Declaration → List (String × List Statement)
  | ⟨_, type, value, _⟩ => Expression.optionImports type ++ Expression.optionImports value

/-- The imports in declarations. -/
def Declaration.allImports : List Declaration → List (String × List Statement)
  | [] => []
  | d :: ds => d.imports ++ Declaration.allImports ds

/-- The imports in a parameter. -/
def Parameter.imports : Parameter → List (String × List Statement)
  | ⟨_, type, _⟩ => Expression.optionImports type

/-- The imports in parameters. -/
def Parameter.allImports : List Parameter → List (String × List Statement)
  | [] => []
  | p :: ps => p.imports ++ Parameter.allImports ps

/-- The imports in an optional parameter. -/
def Parameter.optionImports : Option Parameter → List (String × List Statement)
  | none => []
  | some p => p.imports

/-- The imports in a procedure. -/
def Procedure.imports : Procedure → List (String × List Statement)
  | ⟨fixed, rest, body, _, _⟩ =>
    Parameter.allImports fixed ++ Parameter.optionImports rest ++ body.imports

/-- The imports in a block. -/
def Block.imports : Block → List (String × List Statement)
  | ⟨statements, _⟩ => Statement.allImports statements

/-- The imports in an optional block. -/
def Block.optionImports : Option Block → List (String × List Statement)
  | none => []
  | some b => b.imports

/-- The imports in a branch. -/
def Branch.imports : Branch → List (String × List Statement)
  | ⟨condition, body⟩ => condition.imports ++ body.imports

/-- The imports in branches. -/
def Branch.allImports : List Branch → List (String × List Statement)
  | [] => []
  | b :: bs => b.imports ++ Branch.allImports bs

/-- The imports in a statement.  An import is one itself; those in its statements stand elsewhere. -/
def Statement.imports : Statement → List (String × List Statement)
  | .expression e => e.imports
  | .declare d => d.imports
  | .block b => b.imports
  | .ifElse branches otherwise _ => Branch.allImports branches ++ Block.optionImports otherwise
  | .whileDo condition body _ => condition.imports ++ body.imports
  | .forIn _ iterable body _ => iterable.imports ++ body.imports
  | .returnWith e _ => e.imports
  | .importFile path _ statements _ => [(path, statements)]
  | .defineMacro _ body _ => body.imports
  | .empty _ => []

/-- The imports in statements. -/
def Statement.allImports : List Statement → List (String × List Statement)
  | [] => []
  | s :: ss => s.imports ++ Statement.allImports ss

end

/-! ## Relocated imports -/

/-- An import with its statements relocated. -/
def Relocation.node (τ : Relocation) (i : String × List Statement) : String × List Statement :=
  (i.1, τ.imported i.1 i.2)

section Relocated

variable (τ : Relocation)

mutual

/-- The imports in a relocated expression. -/
theorem Expression.imports_relocated (e : Expression) :
    (e.relocated τ).imports = e.imports.map τ.node := by
  cases e with
  | literal v pos | «variable» name pos | mixin tokens pos => rfl
  | unary op e pos => rw [Expression.relocated, Expression.imports, e.imports_relocated]; rfl
  | binary op left right pos =>
    rw [Expression.relocated, Expression.imports, left.imports_relocated, right.imports_relocated,
      ← List.map_append]
    rfl
  | assign target value pos =>
    rw [Expression.relocated, Expression.imports, target.imports_relocated, value.imports_relocated,
      ← List.map_append]
    rfl
  | call callee arguments pos =>
    rw [Expression.relocated, Expression.imports, callee.imports_relocated,
      Expression.allImports_relocated arguments, ← List.map_append]
    rfl
  | member target name pos =>
    rw [Expression.relocated, Expression.imports, target.imports_relocated]
    rfl
  | index target key pos =>
    rw [Expression.relocated, Expression.imports, target.imports_relocated, key.imports_relocated,
      ← List.map_append]
    rfl
  | procedure p =>
    rw [Expression.relocated, Expression.imports, p.imports_relocated]
    rfl
  | array elements pos =>
    rw [Expression.relocated, Expression.imports, Expression.allImports_relocated elements]
    rfl
  | object members pos =>
    rw [Expression.relocated, Expression.imports, Declaration.allImports_relocated members]
    rfl
  | splat e pos =>
    rw [Expression.relocated, Expression.imports, e.imports_relocated]
    rfl

/-- The imports in relocated expressions. -/
theorem Expression.allImports_relocated (es : List Expression) :
    Expression.allImports (Expression.allRelocated τ es) =
      (Expression.allImports es).map τ.node := by
  cases es with
  | nil => rfl
  | cons e es =>
    rw [Expression.allRelocated, Expression.allImports, e.imports_relocated,
      Expression.allImports_relocated es, ← List.map_append]
    rfl

/-- The imports in a relocated optional expression. -/
theorem Expression.optionImports_relocated (e : Option Expression) :
    Expression.optionImports (Expression.optionRelocated τ e) =
      (Expression.optionImports e).map τ.node := by
  cases e with
  | none => rfl
  | some e =>
    rw [Expression.optionRelocated, Expression.optionImports, e.imports_relocated]
    rfl

/-- The imports in a relocated declaration. -/
theorem Declaration.imports_relocated (d : Declaration) :
    (d.relocated τ).imports = d.imports.map τ.node := by
  obtain ⟨name, type, value, pos⟩ := d
  rw [Declaration.relocated, Declaration.imports, Expression.optionImports_relocated type,
    Expression.optionImports_relocated value, ← List.map_append]
  rfl

/-- The imports in relocated declarations. -/
theorem Declaration.allImports_relocated (ds : List Declaration) :
    Declaration.allImports (Declaration.allRelocated τ ds) =
      (Declaration.allImports ds).map τ.node := by
  cases ds with
  | nil => rfl
  | cons d ds =>
    rw [Declaration.allRelocated, Declaration.allImports, d.imports_relocated,
      Declaration.allImports_relocated ds, ← List.map_append]
    rfl

/-- The imports in a relocated parameter. -/
theorem Parameter.imports_relocated (p : Parameter) :
    (p.relocated τ).imports = p.imports.map τ.node := by
  obtain ⟨name, type, pos⟩ := p
  rw [Parameter.relocated, Parameter.imports, Expression.optionImports_relocated type]
  rfl

/-- The imports in relocated parameters. -/
theorem Parameter.allImports_relocated (ps : List Parameter) :
    Parameter.allImports (Parameter.allRelocated τ ps) =
      (Parameter.allImports ps).map τ.node := by
  cases ps with
  | nil => rfl
  | cons p ps =>
    rw [Parameter.allRelocated, Parameter.allImports, p.imports_relocated,
      Parameter.allImports_relocated ps, ← List.map_append]
    rfl

/-- The imports in a relocated optional parameter. -/
theorem Parameter.optionImports_relocated (p : Option Parameter) :
    Parameter.optionImports (Parameter.optionRelocated τ p) =
      (Parameter.optionImports p).map τ.node := by
  cases p with
  | none => rfl
  | some p =>
    rw [Parameter.optionRelocated, Parameter.optionImports, p.imports_relocated]
    rfl

/-- The imports in a relocated procedure. -/
theorem Procedure.imports_relocated (p : Procedure) :
    (p.relocated τ).imports = p.imports.map τ.node := by
  obtain ⟨fixed, rest, body, pos, origin⟩ := p
  rw [Procedure.relocated, Procedure.imports, Parameter.allImports_relocated fixed,
    Parameter.optionImports_relocated rest, body.imports_relocated, ← List.map_append,
    ← List.map_append]
  rfl

/-- The imports in a relocated block. -/
theorem Block.imports_relocated (b : Block) :
    (b.relocated τ).imports = b.imports.map τ.node := by
  obtain ⟨statements, pos⟩ := b
  rw [Block.relocated, Block.imports, Statement.allImports_relocated statements]
  rfl

/-- The imports in a relocated optional block. -/
theorem Block.optionImports_relocated (b : Option Block) :
    Block.optionImports (Block.optionRelocated τ b) = (Block.optionImports b).map τ.node := by
  cases b with
  | none => rfl
  | some b =>
    rw [Block.optionRelocated, Block.optionImports, b.imports_relocated]
    rfl

/-- The imports in a relocated branch. -/
theorem Branch.imports_relocated (b : Branch) :
    (b.relocated τ).imports = b.imports.map τ.node := by
  obtain ⟨condition, body⟩ := b
  rw [Branch.relocated, Branch.imports, condition.imports_relocated, body.imports_relocated,
    ← List.map_append]
  rfl

/-- The imports in relocated branches. -/
theorem Branch.allImports_relocated (bs : List Branch) :
    Branch.allImports (Branch.allRelocated τ bs) = (Branch.allImports bs).map τ.node := by
  cases bs with
  | nil => rfl
  | cons b bs =>
    rw [Branch.allRelocated, Branch.allImports, b.imports_relocated, Branch.allImports_relocated bs,
      ← List.map_append]
    rfl

/-- The imports in a relocated statement. -/
theorem Statement.imports_relocated (s : Statement) :
    (s.relocated τ).imports = s.imports.map τ.node := by
  cases s with
  | expression e => rw [Statement.relocated, Statement.imports, e.imports_relocated]; rfl
  | declare d => rw [Statement.relocated, Statement.imports, d.imports_relocated]; rfl
  | block b => rw [Statement.relocated, Statement.imports, b.imports_relocated]; rfl
  | ifElse branches otherwise pos =>
    rw [Statement.relocated, Statement.imports, Branch.allImports_relocated branches,
      Block.optionImports_relocated otherwise, ← List.map_append]
    rfl
  | whileDo condition body pos =>
    rw [Statement.relocated, Statement.imports, condition.imports_relocated, body.imports_relocated,
      ← List.map_append]
    rfl
  | forIn name iterable body pos =>
    rw [Statement.relocated, Statement.imports, iterable.imports_relocated, body.imports_relocated,
      ← List.map_append]
    rfl
  | returnWith e pos => rw [Statement.relocated, Statement.imports, e.imports_relocated]; rfl
  | importFile path file statements pos => rfl
  | defineMacro name body pos =>
    rw [Statement.relocated, Statement.imports, body.imports_relocated]
    rfl
  | empty pos => rfl

/-- The imports in relocated statements. -/
theorem Statement.allImports_relocated (ss : List Statement) :
    Statement.allImports (Statement.allRelocated τ ss) =
      (Statement.allImports ss).map τ.node := by
  cases ss with
  | nil => rfl
  | cons s ss =>
    rw [Statement.allRelocated, Statement.allImports, s.imports_relocated,
      Statement.allImports_relocated ss, ← List.map_append]
    rfl

end

end Relocated

namespace Grammar

/-! ## Where imports come from -/

open Classical in
/-- Replaces the statements of imports that are not among those that are brought in. -/
noncomputable def foreign (ctx : Context) : Relocation where
  place := id
  error := id
  imported path ss :=
    if ∃ i, ctx.bring path = .ok i ∧ i.statements = ss then ss else .empty .outside :: ss
  final := fun _ => False

/-- What is brought in is not replaced. -/
theorem brought_foreign (ctx : Context) (path : String) :
    (foreign ctx).brought path (ctx.bring path) = ctx.bring path := by
  cases h : ctx.bring path with
  | error complaint => rfl
  | ok i =>
    have hkept : (foreign ctx).imported path i.statements = i.statements :=
      if_pos ⟨i, h, rfl⟩
    simp only [Relocation.brought, Relocation.inclusion, hkept]
    change Except.ok (Inclusion.mk i.statements (i.errors.map id)) = .ok i
    rw [List.map_id]

/-- Every import in what was read has the statements that its path brings in. -/
theorem exists_bring_of_mem_imports {ctx : Context} {imports : List String} {ts : List Lexeme}
    {path : String} {ss : List Statement}
    (h : (path, ss) ∈ Statement.allImports (readTokens ctx imports ts).statements) :
    ∃ i, ctx.bring path = .ok i ∧ i.statements = ss := by
  have htokens : ts.map (Lexeme.relocated (foreign ctx)) = ts :=
    (List.map_congr_left fun t _ => rfl).trans (List.map_id ts)
  have hbring : ∀ p ∈ imports ++ importedPaths ts,
      ctx.bring p = (foreign ctx).brought p (ctx.bring p) :=
    fun p _ => (brought_foreign ctx p).symm
  obtain ⟨d, -, hd⟩ | hsame := readTokens_relocated rfl (fun _ => rfl) hbring (.inr rfl)
  · cases hd
  · rw [htokens] at hsame
    have hnodes := congrArg (fun i => Statement.allImports i.statements) hsame
    dsimp only at hnodes
    rw [Statement.allImports_relocated] at hnodes
    have hself : (path, ss) = (foreign ctx).node (path, ss) :=
      List.map_inj_left.mp ((List.map_id _).trans hnodes) _ h
    by_contra hnone
    have hforeign : (foreign ctx).node (path, ss) = (path, .empty .outside :: ss) :=
      congrArg (Prod.mk path) (if_neg hnone)
    rw [hforeign] at hself
    have hlength := congrArg (fun i => i.2.length) hself
    simp at hlength

end Grammar

end ProtoScript
