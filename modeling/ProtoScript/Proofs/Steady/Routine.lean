import ProtoScript.Proofs.Routine.Expression
import ProtoScript.Proofs.Routine.Native
import ProtoScript.Proofs.Steady.Safe

/-!
# Routines are safe

From a steady machine, whatever a routine puts into the heap refers to what is there already, and the
work that it leaves to `self` does so too.  None of its steps writes to a variable, so that messages and
native functions are safe.
-/

namespace ProtoScript

namespace Eval

variable {α : Type} {cut : Interruption} {m : Machine} {self other : Work → Eval Value}

/-- A change that only concerns the world outside is safe. -/
theorem SafeAt.outside (hm : m.Steady) {f : Machine → α × Machine} (hf : Outside f) :
    SafeAt cut m (modifyGet f) (modifyGet f) Anything := by
  have happly : (modifyGet f : Eval α) m = .ok (f m).1 (f m).2 := rfl
  refine of_ok happly ?_ trivial
  obtain ⟨loads, host, events, hrest⟩ := hf.rest_eq m
  rw [hrest]
  exact hm.same rfl rfl rfl

/-- A routine is safe from a steady machine. -/
theorem Routine.safe {x y : Eval α} {Q : α → Machine → Prop} (h : Reliable cut self other)
    (hm : m.Steady) (hx : Routine True self other m x y Q) : SafeAt cut m x y Q := by
  induction hx with
  | pure hq => exact .pure hm (hq trivial)
  | bind _ _ ihx ihf =>
    exact (ihx hm).bind fun a m' hl hp => ihf a m' (fun _ => hl) (fun _ => hp) hl.is_steady
  | read _ _ ih => exact .get (ih _ (fun _ => .refl hm) hm)
  | withHeap _ hevolves =>
    obtain ⟨he, hq⟩ := hevolves trivial hm
    exact .withHeap hm he hq
  | outside hf => exact .outside hm hf
  | raise _ pos => exact .raise hm _ pos
  | stop _ _ => exact .throw hm _
  | work w hw => exact .work h hm (hw trivial)

namespace SafeAt

/-- Evaluating an expression is safe. -/
theorem expression (h : Reliable cut self other) (hm : m.Steady) (e : Expression) :
    SafeAt cut m (self (.expression e)) (other (.expression e)) Present :=
  Routine.safe h hm (.expression e)

/-- Sending a message is safe. -/
theorem send (h : Reliable cut self other) (hm : m.Steady) {receiver : Value}
    (hreceiver : m.heap.Has receiver) (method : String) {arguments : List Value}
    (harguments : AllPresent arguments m) (pos : Position) :
    SafeAt cut m (Eval.send self receiver method arguments pos)
      (Eval.send other receiver method arguments pos) Present :=
  Routine.safe h hm (.send (fun _ => hreceiver) method (fun _ => harguments) pos)

/-- Evaluating an expression that denotes a type is safe, and yields a type. -/
theorem evaluateType (h : Reliable cut self other) (hm : m.Steady) (e : Expression) :
    SafeAt cut m (Eval.evaluateType self e) (Eval.evaluateType other e)
      fun d m' => m'.heap.isType d = true :=
  Routine.safe h hm (.evaluateType e)

/-- Looking up a variable is safe. -/
theorem lookupVariable (h : Reliable cut self other) (hm : m.Steady) (name : String) (pos : Position) :
    SafeAt cut m (Eval.lookupVariable name pos) (Eval.lookupVariable name pos) Present :=
  Routine.safe h hm (.lookupVariable name pos)

/-- Checking a condition is safe. -/
theorem holds (h : Reliable cut self other) (hm : m.Steady) (e : Expression) :
    SafeAt cut m (Eval.holds self e) (Eval.holds other e) Anything :=
  Routine.safe h hm (.holds e)

/-- Calling something that is no function is safe. -/
theorem callOther (h : Reliable cut self other) (hm : m.Steady) {v : Value} (hv : m.heap.Has v)
    {receiver : Option ObjectRef} (hreceiver : ∀ o, receiver = some o → m.heap.Has (.object o))
    {arguments : List Value} (harguments : AllPresent arguments m) (pos : Position) :
    SafeAt cut m (Eval.callOther self v receiver arguments pos)
      (Eval.callOther other v receiver arguments pos) Present :=
  Routine.safe h hm (.callOther (fun _ => hv) (fun _ => hreceiver) (fun _ => harguments) pos)

/-- Every native function is safe. -/
theorem callNative (h : Reliable cut self other) (hm : m.Steady) (fuel : Nat) (n : Native)
    {c : NativeCall} (hc : c.Within m.heap) :
    SafeAt cut m (Eval.callNative fuel self n c) (Eval.callNative fuel other n c) Present :=
  Routine.safe h hm (.callNative fuel n fun _ => hc)

end SafeAt

end Eval

end ProtoScript
