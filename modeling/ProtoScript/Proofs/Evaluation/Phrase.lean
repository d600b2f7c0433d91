import ProtoScript.Eval.Statement
import ProtoScript.Proofs.Evaluation.Call

/-!
# Expressions and statements keep the promise

Most phrases are evaluated step by step.  Three of them handle scopes, files or errors themselves.  An
object literal goes back to the scope where it started however its members end.  A block closes its
scope when it is done, and leaves it open when it is interrupted: what is current then still stands
inside the scope around the block.  An import goes on after a statement that fails, from the scope
and the operands that it started with, and in the end gives the importing file back.
-/

namespace ProtoScript

namespace Eval

variable {self other : Work → Eval Value}

/-- Observing a computation turns the way it ends into a value. -/
theorem observe_bind {α β : Type} (x : Eval α) (f : Except Interruption α → Eval β) (m : Machine) :
    (observe x >>= f) m =
      match x m with
      | .ok a m' => f (.ok a) m'
      | .error e m' => f (.error e) m' := by
  rw [bind_apply]
  unfold observe
  cases x m <;> rfl

/-- After an error in an import, the scope and the operands are put back, and the import goes on. -/
theorem runImported_cons_apply (work : Work → Eval Value) (scope : ScopeRef) (height : Nat)
    (last : Value) (s : Statement) (ss : List Statement) (m : Machine) :
    runImported work scope height last (s :: ss) m =
      match work (.statement s) m with
      | .ok v m' => runImported work scope height v ss m'
      | .error (.raised _) m' =>
        runImported work scope height last ss
          { m' with current := scope, operands := m'.operands.unwindTo height }
      | .error e m' => .error e m' := by
  refine (observe_bind _ _ _).trans ?_
  match work (.statement s) m with
  | .ok _ _ => rfl
  | .error (.raised _) _ => rfl
  | .error (.returned _) _ => rfl
  | .error (.exited _) _ => rfl
  | .error (.awaiting _) _ => rfl
  | .error .exhausted _ => rfl

/-- An import runs its statements as those of another file, and ends as they do. -/
theorem runImport_apply (work : Work → Eval Value) (file : String) (ss : List Statement) (m : Machine) :
    runImport work file ss m =
      match runImported work m.current m.operands.height .null ss { m with file } with
      | .ok v m' => .ok v { m' with file := m.file }
      | .error e m' => .error e { m' with file := m.file } := by
  have hset : (modify fun m => { m with file } : Eval Unit) m = .ok () { m with file } := rfl
  unfold runImport
  rw [get_bind, get_bind, get_bind, bind_of_ok hset]
  refine (observe_bind _ _ _).trans ?_
  cases runImported work m.current m.operands.height .null ss { m with file } <;> rfl

namespace Kept

/-! ## Expressions -/

/-- Evaluating the type of a declaration keeps the promise. -/
theorem declaredType (h : Trusted self other) (d : Declaration) :
    Kept self (Eval.declaredType self d) (Eval.declaredType other d) := by
  unfold Eval.declaredType
  cases d.type with
  | some e => exact (evaluateType h e).bind fun _ => .pure _
  | none => exact .pure none

/-- Checking a value for a variable keeps the promise. -/
theorem checkDeclared (v : Value) (type : Option ObjectRef) (pos : Position) :
    Kept self (Eval.checkDeclared v type pos) (Eval.checkDeclared v type pos) := by
  cases type with
  | some t => exact typecheck v t pos
  | none => exact .pure ()

/-- Giving a variable its first value keeps the promise. -/
theorem settle (name : String) (c : CellRef) (v : Value) :
    Kept self (Eval.settle name c v) (Eval.settle name c v) := by
  cases v with
  | object o => exact (modifyObject o _).bind fun _ => (putCell c _).bind fun _ => .pure _
  | _ => exact (putCell c _).bind fun _ => .pure _

/-- A declaration keeps the promise. -/
theorem runDeclaration (h : Trusted self other) (d : Declaration) :
    Kept self (Eval.runDeclaration self d) (Eval.runDeclaration other d) := by
  unfold Eval.runDeclaration
  refine (declaredType h d).bind fun type => (declare d.name type d.pos).bind fun c => ?_
  cases d.value with
  | none => exact .pure _
  | some e =>
    exact (work h _).bind fun v => (checkDeclared v type d.pos).bind fun _ => settle d.name c v

/-- The members of an object literal keep the promise. -/
theorem objectMembers (h : Trusted self other) (ds : List Declaration) (members : Members) :
    Kept self (Eval.objectMembers self members ds) (Eval.objectMembers other members ds) := by
  induction ds generalizing members with
  | nil => exact .pure members
  | cons d ds ih =>
    unfold Eval.objectMembers
    dsimp only
    cases d.value with
    | some e => exact (runDeclaration h d).bind fun v => ih _
    | none =>
      cases d.type with
      | none => exact (runDeclaration h d).bind fun v => ih _
      | some e =>
        exact (evaluateType h e).bind fun type => (declare _ _ _).discard.bind fun _ =>
          (pure _).bind fun v => ih _

/-- An object literal keeps the promise: it goes back to the scope where it started. -/
theorem objectLiteral (h : Trusted self other) (ds : List Declaration) :
    Kept self (Eval.objectLiteral self ds) (Eval.objectLiteral other ds) := by
  intro m hm
  have hopen := follows_opened hm
  have hmembers := objectMembers h ds .empty (opened m) hopen.is_sound
  have happ : ∀ work : Work → Eval Value, Eval.objectLiteral work ds m =
      match Eval.objectMembers work .empty ds (opened m) with
      | .ok members m' => Eval.makeObject ds members { m' with current := m.current }
      | .error e m' => .error e { m' with current := m.current } := by
    intro work
    unfold Eval.objectLiteral
    rw [get_bind, bind_of_ok (openScope_apply m)]
    refine (observe_bind _ _ _).trans ?_
    cases Eval.objectMembers work .empty ds (opened m) <;> rfl
  have hback : ∀ {m'}, (opened m).Follows m' → m.Follows { m' with current := m.current } :=
    fun hf => follows_back hm hf _
  have hend := hmembers.ending
  refine ⟨?_, ?_, ?_⟩
  · rw [happ self, happ other, hmembers.agree]
  · rw [happ self]
    revert hend
    match Eval.objectMembers self .empty ds (opened m) with
    | .ok members m' =>
      rintro ⟨hf, -, ho⟩
      have hmake : Kept self (Eval.makeObject ds members) _ :=
        Routine.kept (m := default) h (.makeObject ds False.elim)
      exact Ending.trans (hback hf) rfl ho (hmake _ (hback hf).is_sound).ending
    | .error (.raised _) m' => exact fun ⟨hf, ho⟩ => ⟨hback hf, ho⟩
    | .error (.returned _) m' => exact fun ⟨hf, _, hv⟩ => ⟨hback hf, .self _, hv⟩
    | .error (.exited _) _ => exact id
    | .error (.awaiting _) _ => exact id
    | .error .exhausted _ => exact id
  · intro pos m' hret
    rw [happ self] at hret
    cases hm' : Eval.objectMembers self .empty ds (opened m) with
    | ok members m₁ =>
      rw [hm'] at hret
      cases hret
    | error e m₁ =>
      rw [hm'] at hret
      cases hret
      exact (hmembers.source pos m₁ hm').of_operands rfl rfl

/-- An assignment to a variable keeps the promise. -/
theorem assign_variable (h : Trusted self other) (name : String) (pos' : Position)
    (value : Expression) (pos : Position) :
    Kept self (Eval.assign self (.variable name pos') value pos)
      (Eval.assign other (.variable name pos') value pos) := by
  refine (work h _).bind fun v => get.bind fun m => ?_
  cases m.scopes.find? m.current name with
  | some c => exact (checkDeclared v _ pos).bind fun _ => (putCell c v).bind fun _ => .pure v
  | none => exact .raise rfl pos

/-- Evaluating an expression keeps the promise. -/
theorem evaluate (h : Trusted self other) (e : Expression) :
    Kept self (Eval.evaluate self e) (Eval.evaluate other e) := by
  obtain ⟨name, pos', value, pos, rfl⟩ | ⟨members, pos, rfl⟩ | he := e.routine_cases
  · exact assign_variable h name pos' value pos
  · exact objectLiteral h members
  · exact Routine.kept (m := default) h (.evaluate he)

/-! ## Statements -/

/-- A block keeps the promise.  If it is interrupted, its scope stays open, and what is current then
stands inside the scope around the block. -/
theorem runBlock (h : Trusted self other) (b : Block) :
    Kept self (Eval.runBlock self b) (Eval.runBlock other b) := by
  intro m hm
  have hopen := follows_opened hm
  have hbody := runStatements h b.statements (opened m) hopen.is_sound
  have happ : ∀ work : Work → Eval Value, Eval.runBlock work b m =
      (Eval.runStatements work b.statements >>= fun _ => closeScope b.pos) (opened m) :=
    fun _ => bind_of_ok (openScope_apply m)
  have hend := hbody.ending
  refine ⟨?_, ?_, ?_⟩
  · rw [happ self, happ other, bind_apply, bind_apply, hbody.agree]
  · rw [happ self, bind_apply]
    revert hend
    match Eval.runStatements self b.statements (opened m) with
    | .ok _ m' =>
      rintro ⟨hf, hc, ho⟩
      dsimp only
      rw [closeScope_of_opened hm hf hc]
      exact ⟨follows_back hm hf _, rfl, ho⟩
    | .error (.raised _) m' => exact fun ⟨hf, ho⟩ => ⟨follows_of_opened hm hf, ho⟩
    | .error (.returned _) m' =>
      rintro ⟨hf, hw, hv⟩
      exact ⟨follows_of_opened hm hf, hw.trans (.inside (parent?_of_opened hm hf) (.self _)), hv⟩
    | .error (.exited _) _ => exact id
    | .error (.awaiting _) _ => exact id
    | .error .exhausted _ => exact id
  · intro pos m' hret
    rw [happ self] at hret
    cases hm' : Eval.runStatements self b.statements (opened m) with
    | ok _ m₁ =>
      rw [hm'] at hend
      rw [bind_of_ok hm', closeScope_of_opened hm hend.1 hend.2.1] at hret
      cases hret
    | error e m₁ =>
      rw [bind_of_error hm'] at hret
      cases hret
      exact (hbody.source pos m' hm').of_operands rfl rfl

/-- A choice between blocks keeps the promise. -/
theorem runBranches (h : Trusted self other) (otherwise : Option Block) (bs : List Branch) :
    Kept self (Eval.runBranches self otherwise bs) (Eval.runBranches other otherwise bs) := by
  induction bs with
  | nil =>
    cases otherwise with
    | some b => exact runBlock h b
    | none => exact .pure ()
  | cons b bs ih => exact (holds h b.condition).bind fun _ => .ite (runBlock h b.body) ih

/-- The definition of a macro keeps the promise. -/
theorem runMacroDefinition (h : Trusted self other) (name : String) (body : Procedure)
    (pos : Position) :
    Kept self (Eval.runMacroDefinition self name body pos)
      (Eval.runMacroDefinition other name body pos) :=
  (lookupVariable h _ pos).bind fun _ => (send h _ _ _ pos).bind fun made =>
    (declare name none pos).bind fun c => (putCell c made).bind fun _ => .pure made

/-- The statements of an import keep the promise, from the scope and with the operands that they are
restored to after an error. -/
theorem runImported (h : Trusted self other) (ss : List Statement) (last : Value) {m : Machine}
    (hm : m.Sound) :
    KeptAt self m (Eval.runImported self m.current m.operands.height last ss)
      (Eval.runImported other m.current m.operands.height last ss) := by
  induction ss generalizing m last with
  | nil => exact Kept.pure last m hm
  | cons s ss ih =>
    have hs := work h (.statement s) m hm
    have hself := runImported_cons_apply self m.current m.operands.height last s ss m
    have hother := runImported_cons_apply other m.current m.operands.height last s ss m
    rw [← hs.agree] at hother
    have hend := hs.ending
    cases hres : self (.statement s) m with
    | ok v m₁ =>
      rw [hres] at hself hother hend
      obtain ⟨hf, hc, ho⟩ := hend
      have hrest := ih v hf.is_sound
      rw [hc, ho] at hrest
      exact hrest.of_step hself hother hf hc ho
    | error e m₁ =>
      rw [hres] at hself hother hend
      cases e with
      | raised d =>
        obtain ⟨hf, ho, -⟩ := hend
        have hops : m₁.operands.unwindTo m.operands.height = m.operands := by
          rw [ho]
          exact Operands.unwindTo_pushAll m.operands []
        have hf₁ : m.Follows { m₁ with
            current := m.current, operands := m₁.operands.unwindTo m.operands.height } :=
          hf.move (lt_of_lt_of_le hm.current_lt hf.grown.size_le) _
        have hrest := ih last hf₁.is_sound
        rw [show ({ m₁ with
          current := m.current
          operands := m₁.operands.unwindTo m.operands.height } : Machine).operands = _ from
            hops] at hrest
        exact hrest.of_step hself hother hf₁ rfl hops
      | returned pos => exact hs.of_error hres hself hother
      | exited code => exact hs.of_error hres hself hother
      | awaiting q => exact hs.of_error hres hself hother
      | exhausted => exact hs.of_error hres hself hother

/-- An import keeps the promise: in the end errors are attributed to the importing file again. -/
theorem runImport (h : Trusted self other) (file : String) (ss : List Statement) :
    Kept self (Eval.runImport self file ss) (Eval.runImport other file ss) := by
  intro m hm
  have hbody := runImported h ss .null
    (show ({ m with file } : Machine).Sound from ⟨hm.nested, hm.current_lt, hm.genuine⟩)
  have hback : ∀ {m'}, ({ m with file } : Machine).Follows m' →
      m.Follows { m' with file := m.file } := by
    intro m' hf
    exact ⟨⟨hf.is_sound.nested, hf.is_sound.current_lt, hf.is_sound.genuine⟩, hf.grown, rfl,
      hf.bindsOnly, hf.lengthened⟩
  have hend := hbody.ending
  refine ⟨?_, ?_, ?_⟩
  · have hagree : Eval.runImported self m.current m.operands.height .null ss { m with file } =
        Eval.runImported other m.current m.operands.height .null ss { m with file } :=
      hbody.agree
    rw [runImport_apply self, runImport_apply other, hagree]
  · rw [runImport_apply self]
    revert hend
    match Eval.runImported self m.current m.operands.height .null ss { m with file } with
    | .ok _ m' => exact fun ⟨hf, hc, ho⟩ => ⟨hback hf, hc, ho⟩
    | .error (.raised _) m' => exact fun ⟨hf, ho⟩ => ⟨hback hf, ho⟩
    | .error (.returned _) m' => exact fun ⟨hf, hw, hv⟩ => ⟨hback hf, hw, hv⟩
    | .error (.exited _) _ => exact id
    | .error (.awaiting _) _ => exact id
    | .error .exhausted _ => exact id
  · intro pos m' hret
    rw [runImport_apply self] at hret
    cases hm' : Eval.runImported self m.current m.operands.height .null ss { m with file } with
    | ok _ m₁ =>
      rw [hm'] at hret
      cases hret
    | error e m₁ =>
      rw [hm'] at hret
      cases hret
      exact (hbody.source pos m₁ hm').of_operands rfl rfl

/-- Every statement but `return` itself keeps the promise. -/
theorem runStatement (h : Trusted self other) (fuel : Nat) {s : Statement}
    (hs : ∀ e pos, s ≠ .returnWith e pos) :
    Kept self (Eval.runStatement self fuel s) (Eval.runStatement other fuel s) := by
  cases s with
  | expression e => exact work h _
  | declare d => exact runDeclaration h d
  | block b => exact (runBlock h b).bind fun _ => .pure _
  | ifElse branches otherwise _ => exact (runBranches h otherwise branches).bind fun _ => .pure _
  | whileDo condition body _ =>
    exact (whileTrue (holds h condition) (runBlock h body) fuel).bind fun _ => .pure _
  | forIn _ iterable body pos =>
    exact (work h _).bind fun v => (send h v _ _ pos).discard.bind fun _ => .pure _
  | returnWith e pos => exact absurd rfl (hs e pos)
  | importFile _ file statements _ => exact runImport h file statements
  | defineMacro name body pos => exact runMacroDefinition h name body pos
  | empty _ => exact .pure _

end Kept

/-- A `return` evaluates its expression, and stops with the value on top of the operands. -/
theorem runStatement_returnWith (self : Work → Eval Value) (fuel : Nat) (e : Expression)
    (pos : Position) (m : Machine) :
    runStatement self fuel (.returnWith e pos) m =
      match self (.expression e) m with
      | .ok v m' => .error (.returned pos) { m' with operands := m'.operands.push v }
      | .error i m' => .error i m' := by
  unfold runStatement
  dsimp only
  rw [bind_apply]
  cases self (.expression e) m <;> rfl

end Eval

end ProtoScript
