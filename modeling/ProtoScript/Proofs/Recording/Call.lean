import ProtoScript.Eval.Call
import ProtoScript.Proofs.Recording.Routine

/-!
# Calls are oblivious

Arguments are checked and bound without a look at the errors that were recorded.  A call observes how
the body of the procedure ends: a `return` is handled, and every other interruption is handed on after
the scope and the operands of the caller were restored.
-/

namespace ProtoScript

namespace Eval

namespace Oblivious

variable {self : Work → Eval Value}

/-- Checking the fixed parameters is oblivious. -/
theorem checkFixed (h : ∀ w, Oblivious (self w)) (pos : Position) (ps : List Parameter)
    (vs : List Value) : Oblivious (Eval.checkFixed self pos ps vs) := by
  induction ps generalizing vs with
  | nil => exact .pure []
  | cons p ps ih =>
    cases vs with
    | nil => exact .pure []
    | cons v vs =>
      unfold Eval.checkFixed
      cases p.type with
      | some e =>
        exact (evaluateType h e).bind fun _ => (typecheck _ _ pos).bind fun _ =>
          (ih vs).bind fun _ => .pure _
      | none => exact (ih vs).bind fun _ => .pure _

/-- Checking values against one type is oblivious. -/
theorem checkAll (type : ObjectRef) (pos : Position) (vs : List Value) :
    Oblivious (Eval.checkAll type pos vs) := by
  induction vs with
  | nil => exact .pure ()
  | cons v vs ih => exact (typecheck v type pos).bind fun _ => ih

/-- Checking all arguments of a call is oblivious. -/
theorem checkArguments (h : ∀ w, Oblivious (self w)) (p : Procedure) (arguments : List Value)
    (pos : Position) : Oblivious (Eval.checkArguments self p arguments pos) := by
  unfold Eval.checkArguments
  refine (checkFixed h pos p.fixed arguments).bind fun types => ?_
  dsimp only
  cases p.rest.bind (·.type) with
  | some e =>
    exact (evaluateType h e).bind fun _ => (checkAll _ pos _).bind fun _ => .pure types
  | none => exact .pure types

/-- Taking operands from the stack is oblivious. -/
theorem popOperands (pos : Position) (n : Nat) (others : List Value) :
    Oblivious (Eval.popOperands pos n others) := by
  induction n generalizing others with
  | zero => exact .pure others
  | succ n ih => exact (popOperand pos).bind fun _ => ih _

/-- Binding the fixed parameters is oblivious. -/
theorem bindFixed (pos : Position) (entries : List (Parameter × Option ObjectRef)) :
    Oblivious (Eval.bindFixed pos entries) := by
  induction entries with
  | nil => exact .pure ()
  | cons entry entries ih =>
    exact (popOperand pos).bind fun v => (declare _ _ _).bind fun c => (putCell c v).bind fun _ => ih

/-- Binding all parameters is oblivious. -/
theorem bindParameters (p : Procedure) (count : Nat) (types : List (Option ObjectRef))
    (pos : Position) : Oblivious (Eval.bindParameters p count types pos) := by
  unfold Eval.bindParameters
  dsimp only
  cases p.rest with
  | none => exact bindFixed pos _
  | some rest =>
    exact (popOperands pos _ []).bind fun values => (declare _ _ _).bind fun c =>
      (newArray values).bind fun v => (putCell c v).bind fun _ => bindFixed pos _

/-- Running statements one after the other is oblivious. -/
theorem runStatements (h : ∀ w, Oblivious (self w)) (ss : List Statement) :
    Oblivious (Eval.runStatements self ss) := by
  induction ss with
  | nil => exact .pure ()
  | cons s ss ih => exact (h _).discard.bind fun _ => ih

/-- Running the body of a procedure in a scope of its own is oblivious. -/
theorem activation (h : ∀ w, Oblivious (self w)) (p : Procedure) (count : Nat)
    (types : List (Option ObjectRef)) (pos : Position) :
    Oblivious (Eval.activation self p count types pos) :=
  (bindParameters p count types pos).bind fun _ => runStatements h _

/-- Entering and leaving a procedure is oblivious: a `return` is handled, and for everything else the
scope and the operands of the caller are restored. -/
theorem enter (h : ∀ w, Oblivious (self w)) (p : Procedure) (count : Nat)
    (types : List (Option ObjectRef)) (height : Nat) (pos : Position) :
    Oblivious (Eval.enter self p count types height pos) := by
  unfold Eval.enter
  refine .read (fun _ _ => rfl) fun m => openScope.bind fun _ => .read (fun _ _ => rfl) fun m' => ?_
  refine .recover (fun e => ∃ pos, e = .returned pos) (fun _ ⟨_, h⟩ => nomatch h)
    (activation h p count types pos) ?_ ?_ ?_
  · intro _
    exact (closeScope pos).bind fun _ => (pushOperand _).bind fun _ => popOperand pos
  · rintro _ ⟨_, rfl⟩
    exact .read (fun _ _ => rfl) fun _ => (closeUntil _ pos _).bind fun _ =>
      (closeScope pos).bind fun _ => popOperand pos
  · intro e he
    refine ⟨fun m' =>
      { m' with current := m.current, operands := m'.operands.unwindTo height }, ?_, ?_⟩
    · exact .of_scopes fun _ _ => rfl
    · cases e with
      | returned pos' => exact absurd ⟨pos', rfl⟩ he
      | _ => exact fun _ => rfl

/-- Calling a procedure is oblivious. -/
theorem callProcedure (h : ∀ w, Oblivious (self w)) (p : Procedure) (receiver : Option ObjectRef)
    (arguments : List Value) (pos : Position) :
    Oblivious (Eval.callProcedure self p receiver arguments pos) := by
  unfold Eval.callProcedure
  refine .ite ?_ (.raise _ pos)
  exact (checkArguments h p _ pos).bind fun types => .read (fun _ _ => rfl) fun m =>
    (updateRest fun _ _ => rfl).bind fun _ => enter h p _ types _ pos

end Oblivious

end Eval

end ProtoScript
