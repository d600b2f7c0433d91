import ProtoScript.Proofs.Evaluation.Primitive
import ProtoScript.Proofs.Routine.Expression
import ProtoScript.Proofs.Routine.Native

/-!
# Routines keep the promise

Of the steps of a routine none touches the scopes or the operands, none raises an internal problem, and
only work that is left to `self` can return.  So each step keeps the promise, and with it every message
and every native function; a `return` comes out of them only when it comes out of the work that they ask
for, such as the statements of an expanded macro.
-/

namespace ProtoScript

namespace Eval

variable {α : Type} {self other : Work → Eval Value}

/-- A change that only concerns the world outside keeps the promise. -/
theorem Kept.outside {f : Machine → α × Machine} (hf : Outside f) :
    Kept self (modifyGet f) (modifyGet f) := by
  refine .of_alike fun m => ⟨(f m).1, (f m).2, rfl, ?_⟩
  obtain ⟨loads, host, events, hrest⟩ := hf.rest_eq m
  rw [hrest]
  exact ⟨rfl, fun _ => rfl, rfl, rfl, rfl, rfl, .refl _ _, .refl _⟩

/-- A routine keeps the promise, whatever the values in it refer to. -/
theorem Routine.kept {m : Machine} {x y : Eval α} {Q : α → Machine → Prop} (h : Trusted self other)
    (hx : Routine False self other m x y Q) : Kept self x y := by
  induction hx with
  | pure _ => exact .pure _
  | @bind _ _ m _ _ _ _ _ _ _ _ ihx ihf => exact ihx.bind fun a => ihf a m False.elim False.elim
  | read _ _ ih => exact Kept.get.bind fun m' => ih m' False.elim
  | withHeap hlengthened _ => exact .withHeap hlengthened
  | outside hf => exact .outside hf
  | raise hp pos => exact .raise hp pos
  | stop hraised hreturned => exact .of_error (fun _ => rfl) hraised hreturned
  | work w _ => exact .work h w

namespace Kept

/-- Boxing a value keeps the promise. -/
theorem box (h : Trusted self other) (v : Value) (pos : Position) :
    Kept self (Eval.box self v pos) (Eval.box other v pos) :=
  Routine.kept (m := default) h (.box False.elim pos)

/-- Sending a message keeps the promise. -/
theorem send (h : Trusted self other) (receiver : Value) (method : String)
    (arguments : List Value) (pos : Position) :
    Kept self (Eval.send self receiver method arguments pos)
      (Eval.send other receiver method arguments pos) :=
  Routine.kept (m := default) h (.send False.elim method False.elim pos)

/-- Asking a value for its text keeps the promise. -/
theorem stringify (h : Trusted self other) (v : Value) (pos : Position) :
    Kept self (Eval.stringify self v pos) (Eval.stringify other v pos) :=
  Routine.kept (m := default) h (.stringify False.elim pos)

/-- Evaluating an expression that denotes a type keeps the promise. -/
theorem evaluateType (h : Trusted self other) (e : Expression) :
    Kept self (Eval.evaluateType self e) (Eval.evaluateType other e) :=
  Routine.kept (m := default) h (.evaluateType e)

/-- Looking up a variable keeps the promise. -/
theorem lookupVariable (h : Trusted self other) (name : String) (pos : Position) :
    Kept self (Eval.lookupVariable name pos) (Eval.lookupVariable name pos) :=
  Routine.kept (m := default) h (.lookupVariable name pos)

/-- Checking a condition keeps the promise. -/
theorem holds (h : Trusted self other) (e : Expression) :
    Kept self (Eval.holds self e) (Eval.holds other e) :=
  Routine.kept (m := default) h (.holds e)

/-- Calling something that is no function keeps the promise. -/
theorem callOther (h : Trusted self other) (v : Value) (receiver : Option ObjectRef)
    (arguments : List Value) (pos : Position) :
    Kept self (Eval.callOther self v receiver arguments pos)
      (Eval.callOther other v receiver arguments pos) :=
  Routine.kept (m := default) h (.callOther False.elim False.elim False.elim pos)

/-- Every native function keeps the promise. -/
theorem callNative (h : Trusted self other) (fuel : Nat) (n : Native) (c : NativeCall) :
    Kept self (Eval.callNative fuel self n c) (Eval.callNative fuel other n c) :=
  Routine.kept (m := default) h (.callNative fuel n False.elim)

end Kept

end Eval

end ProtoScript
