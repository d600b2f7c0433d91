import ProtoScript.Proofs.Recording.Basic
import ProtoScript.Proofs.Routine.Expression
import ProtoScript.Proofs.Routine.Native

/-!
# Routines are oblivious

No step of a routine looks at the errors that were recorded, so messages and native functions are
oblivious if the work that they leave to `self` is.
-/

namespace ProtoScript

namespace Eval

variable {α : Type} {self : Work → Eval Value}

/-- A change that only concerns the world outside is quiet. -/
theorem Outside.quiet {f : Machine → α × Machine} (hf : Outside f) : Quiet fun m => (f m).2 := by
  refine .of_scopes fun m ds => ?_
  obtain ⟨loads, host, events, hrest⟩ := hf.rest_eq m
  rw [hf.spares m ds, hrest]

/-- A routine is oblivious, whatever the values in it refer to. -/
theorem Routine.oblivious {m : Machine} {x y : Eval α} {Q : α → Machine → Prop}
    (h : ∀ w, Oblivious (self w)) (hx : Routine False self self m x y Q) : Oblivious x := by
  induction hx with
  | pure _ => exact .pure _
  | @bind _ _ m _ _ _ _ _ _ _ _ ihx ihf => exact ihx.bind fun a => ihf a m False.elim False.elim
  | read hsame _ ih => exact .read hsame fun m' => ih m' False.elim
  | withHeap _ _ => exact .withHeap _
  | outside hf => exact .change hf.value_eq hf.quiet
  | raise _ pos => exact .raise _ pos
  | stop hraised _ => exact .stop hraised
  | work w _ => exact h w

namespace Oblivious

/-- Sending a message is oblivious. -/
theorem send (h : ∀ w, Oblivious (self w)) (receiver : Value) (method : String)
    (arguments : List Value) (pos : Position) :
    Oblivious (Eval.send self receiver method arguments pos) :=
  Routine.oblivious (m := default) h (.send False.elim method False.elim pos)

/-- Evaluating an expression that denotes a type is oblivious. -/
theorem evaluateType (h : ∀ w, Oblivious (self w)) (e : Expression) :
    Oblivious (Eval.evaluateType self e) :=
  Routine.oblivious (m := default) h (.evaluateType e)

/-- Looking up a variable is oblivious. -/
theorem lookupVariable (h : ∀ w, Oblivious (self w)) (name : String) (pos : Position) :
    Oblivious (Eval.lookupVariable name pos) :=
  Routine.oblivious (m := default) h (.lookupVariable name pos)

/-- Checking a condition is oblivious. -/
theorem holds (h : ∀ w, Oblivious (self w)) (e : Expression) : Oblivious (Eval.holds self e) :=
  Routine.oblivious (m := default) h (.holds e)

/-- Calling something that is no function is oblivious. -/
theorem callOther (h : ∀ w, Oblivious (self w)) (v : Value) (receiver : Option ObjectRef)
    (arguments : List Value) (pos : Position) :
    Oblivious (Eval.callOther self v receiver arguments pos) :=
  Routine.oblivious (m := default) h (.callOther False.elim False.elim False.elim pos)

/-- Every native function is oblivious. -/
theorem callNative (h : ∀ w, Oblivious (self w)) (fuel : Nat) (n : Native) (c : NativeCall) :
    Oblivious (Eval.callNative fuel self n c) :=
  Routine.oblivious (m := default) h (.callNative fuel n False.elim)

end Oblivious

end Eval

end ProtoScript
