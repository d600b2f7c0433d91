import ProtoScript.Eval.Run
import ProtoScript.Proofs.Recording.Call

/-!
# Phrases and whole runs are oblivious

An object literal observes how the work inside it ends: it goes back to its scope and hands every
interruption on.

By induction on how deep work may nest, the evaluator is oblivious: it does the same whatever errors
were recorded before.
-/

namespace ProtoScript

namespace Eval

namespace Oblivious

variable {self : Work → Eval Value}

/-! ## Expressions -/

/-- Evaluating the type of a declaration is oblivious. -/
theorem declaredType (h : ∀ w, Oblivious (self w)) (d : Declaration) :
    Oblivious (Eval.declaredType self d) := by
  unfold Eval.declaredType
  cases d.type with
  | some e => exact (evaluateType h e).bind fun _ => .pure _
  | none => exact .pure none

/-- Checking a value against a declared type is oblivious. -/
theorem checkDeclared (v : Value) (type : Option ObjectRef) (pos : Position) :
    Oblivious (Eval.checkDeclared v type pos) := by
  cases type with
  | some t => exact typecheck v t pos
  | none => exact .pure ()

/-- Filling a declared cell is oblivious. -/
theorem settle (name : String) (c : CellRef) (v : Value) : Oblivious (Eval.settle name c v) := by
  cases v with
  | object o => exact (modifyHeap _).bind fun _ => (putCell c _).bind fun _ => .pure _
  | _ => exact (putCell c _).bind fun _ => .pure _

/-- Running a declaration is oblivious. -/
theorem runDeclaration (h : ∀ w, Oblivious (self w)) (d : Declaration) :
    Oblivious (Eval.runDeclaration self d) := by
  unfold Eval.runDeclaration
  refine (declaredType h d).bind fun type => (declare d.name type d.pos).bind fun c => ?_
  cases d.value with
  | none => exact .pure _
  | some e =>
    exact (h _).bind fun v => (checkDeclared v type d.pos).bind fun _ => settle d.name c v

/-- Evaluating the members of an object is oblivious. -/
theorem objectMembers (h : ∀ w, Oblivious (self w)) (ds : List Declaration) (members : Members) :
    Oblivious (Eval.objectMembers self members ds) := by
  induction ds generalizing members with
  | nil => exact .pure members
  | cons d ds ih =>
    unfold Eval.objectMembers
    dsimp only
    cases d.value with
    | some e => exact (runDeclaration h d).bind fun v => ih _
    | none =>
      cases d.type with
      | none => exact (runDeclaration h d).bind fun v => ih _
      | some e =>
        exact (evaluateType h e).bind fun type => (declare _ _ _).discard.bind fun _ =>
          (pure _).bind fun v => ih _

/-- An object literal is oblivious: every interruption is handed on. -/
theorem objectLiteral (h : ∀ w, Oblivious (self w)) (ds : List Declaration) :
    Oblivious (Eval.objectLiteral self ds) := by
  unfold Eval.objectLiteral
  refine .read (fun _ _ => rfl) fun m => openScope.bind fun _ => ?_
  refine .recover (fun _ => False) (fun _ => id) (objectMembers h ds .empty) ?_ nofun ?_
  · intro members
    exact (updateRest fun _ _ => rfl).bind fun _ =>
      Routine.oblivious (m := default) h (.makeObject ds False.elim)
  · intro e _
    exact ⟨fun m' => { m' with current := m.current }, .of_scopes fun _ _ => rfl, fun _ => rfl⟩

/-- An assignment to a variable is oblivious. -/
theorem assign_variable (h : ∀ w, Oblivious (self w)) (name : String) (pos' : Position)
    (value : Expression) (pos : Position) :
    Oblivious (Eval.assign self (.variable name pos') value pos) := by
  refine (h _).bind fun v => .read (fun _ _ => rfl) fun m => ?_
  cases m.scopes.find? m.current name with
  | some c => exact (checkDeclared v _ pos).bind fun _ => (putCell c v).bind fun _ => .pure v
  | none => exact .raise _ pos

/-- Evaluating an expression is oblivious. -/
theorem evaluate (h : ∀ w, Oblivious (self w)) (e : Expression) :
    Oblivious (Eval.evaluate self e) := by
  obtain ⟨name, pos', value, pos, rfl⟩ | ⟨members, pos, rfl⟩ | he := e.routine_cases
  · exact assign_variable h name pos' value pos
  · exact objectLiteral h members
  · exact Routine.oblivious (m := default) h (.evaluate he)

/-! ## Statements -/

/-- Running a block is oblivious. -/
theorem runBlock (h : ∀ w, Oblivious (self w)) (b : Block) : Oblivious (Eval.runBlock self b) :=
  openScope.bind fun _ => (runStatements h _).bind fun _ => closeScope _

/-- Running the first branch that holds is oblivious. -/
theorem runBranches (h : ∀ w, Oblivious (self w)) (otherwise : Option Block) (bs : List Branch) :
    Oblivious (Eval.runBranches self otherwise bs) := by
  induction bs with
  | nil =>
    cases otherwise with
    | some b => exact runBlock h b
    | none => exact .pure ()
  | cons b bs ih => exact (holds h b.condition).bind fun _ => .ite (runBlock h b.body) ih

/-- Defining a macro is oblivious. -/
theorem runMacroDefinition (h : ∀ w, Oblivious (self w)) (name : String) (body : Procedure)
    (pos : Position) : Oblivious (Eval.runMacroDefinition self name body pos) :=
  (lookupVariable h _ pos).bind fun _ => (send h _ _ _ pos).bind fun made =>
    (declare name none pos).bind fun c => (putCell c made).bind fun _ => .pure made

/-- Running a statement is oblivious. -/
theorem runStatement (h : ∀ w, Oblivious (self w)) (fuel : Nat) (s : Statement) :
    Oblivious (Eval.runStatement self fuel s) := by
  cases s with
  | expression e => exact h _
  | declare d => exact runDeclaration h d
  | block b => exact (runBlock h b).bind fun _ => .pure _
  | ifElse branches otherwise _ => exact (runBranches h otherwise branches).bind fun _ => .pure _
  | whileDo condition body _ =>
    exact (whileTrue (holds h condition) (runBlock h body) fuel).bind fun _ => .pure _
  | forIn _ iterable body pos =>
    exact (h _).bind fun v => (send h v _ _ pos).discard.bind fun _ => .pure _
  | returnWith e pos => exact (h _).bind fun v => (pushOperand v).bind fun _ => .stop nofun
  | importFile _ file statements _ => exact .imported (fun s => h (.statement s)) file statements
  | defineMacro name body pos => exact runMacroDefinition h name body pos
  | empty _ => exact .pure _

/-! ## Whole runs -/

/-- Calling a value is oblivious, whatever kind of value it is. -/
theorem call (h : ∀ w, Oblivious (self w)) (fuel : Nat) (function : Value)
    (receiver : Option ObjectRef) (arguments : List Value) (pos : Position) :
    Oblivious (Eval.call fuel self function receiver arguments pos) := by
  have hother := callOther h function receiver arguments pos
  cases function with
  | native n => exact callNative h fuel n _
  | procedure p => exact callProcedure h p receiver arguments pos
  | _ => exact hother

/-- One step of the evaluator is oblivious if the work inside it is. -/
theorem step (h : ∀ w, Oblivious (self w)) (fuel : Nat) (w : Work) :
    Oblivious (Eval.step fuel self w) := by
  cases w with
  | statement s => exact runStatement h fuel s
  | expression e => exact evaluate h e
  | call function receiver arguments pos => exact call h fuel function receiver arguments pos

end Oblivious

/-- The evaluator is oblivious. -/
theorem run_oblivious (n : Nat) (w : Work) : Oblivious (run n w) := by
  induction n generalizing w with
  | zero => exact .exhausted
  | succ n ih => exact Oblivious.step ih n w

end Eval

end ProtoScript
