import Mathlib.Tactic.Common
import ProtoScript.Eval.Run
import ProtoScript.Proofs.Evaluation.Phrase

/-!
# Whole runs keep the promise

The rules for statements, expressions and calls keep the promise if the work inside them does.  By
induction on how deep work may nest, so does the evaluator itself.

Two things are added that talk about the work that is done inside other work.  `Uses n w m P` says
that doing `w` from `m` involves some piece of work of the kind `P`: the outcome would not be the same
whatever such pieces did.  `Returns n w m pos v` follows a `return` to its origin: either `w` is the
statement `return` itself and `v` is the value of its expression, or the `return` came out of a piece
of work inside `w`, which was done with the same operands.
-/

namespace ProtoScript

/-- Nothing but the value that was pushed is on top of a stack. -/
theorem Operands.push_injective {s : Operands} {v w : Value} (h : s.push v = s.push w) : v = w := by
  unfold Operands.push at h
  cases h
  rfl

namespace Eval

variable {self other : Work → Eval Value}

/-! ## One step -/

/-- Calling a value keeps the promise. -/
theorem Kept.call (h : Trusted self other) (fuel : Nat) (function : Value)
    (receiver : Option ObjectRef) (arguments : List Value) (pos : Position) :
    Kept self (Eval.call fuel self function receiver arguments pos)
      (Eval.call fuel other function receiver arguments pos) := by
  have hother := callOther h function receiver arguments pos
  cases function with
  | native n => exact callNative h fuel n _
  | procedure p => exact callProcedure h p receiver arguments pos
  | _ => exact hother

/-- Any work but a statement `return` keeps the promise. -/
theorem Kept.step (h : Trusted self other) (fuel : Nat) {w : Work}
    (hw : ∀ e pos, w ≠ .statement (.returnWith e pos)) :
    Kept self (Eval.step fuel self w) (Eval.step fuel other w) := by
  cases w with
  | statement s => exact runStatement h fuel fun e pos hs => hw e pos (congrArg _ hs)
  | expression e => exact evaluate h e
  | call function receiver arguments pos => exact call h fuel function receiver arguments pos

/-- A statement `return` ends as promised, in whichever way its expression is evaluated. -/
theorem step_returnWith (h : Trusted self other) (fuel : Nat) (e : Expression) (pos : Position)
    {m : Machine} (hm : m.Sound) :
    step fuel self (.statement (.returnWith e pos)) m =
        step fuel other (.statement (.returnWith e pos)) m ∧
      Ending m (step fuel self (.statement (.returnWith e pos)) m) := by
  have hend := h.ending (.expression e) m hm
  dsimp only [step]
  rw [runStatement_returnWith, runStatement_returnWith, ← h.agree _ m hm]
  refine ⟨rfl, ?_⟩
  revert hend
  match self (.expression e) m with
  | .ok v m' =>
    rintro ⟨hf, hc, ho⟩
    refine ⟨hf.move hf.is_sound.current_lt _, ?_, v, ?_⟩
    · rw [← hc]
      exact .self _
    · exact congrArg (·.push v) ho
  | .error (.raised _) m' => exact id
  | .error (.returned _) m' => exact id
  | .error (.exited _) _ => exact id
  | .error (.awaiting _) _ => exact id
  | .error .exhausted _ => exact id

/-- If the work inside is trusted, so is the step. -/
theorem Trusted.step (h : Trusted self other) (fuel : Nat) :
    Trusted (Eval.step fuel self) (Eval.step fuel other) := by
  have hboth : ∀ w m, m.Sound →
      Eval.step fuel self w m = Eval.step fuel other w m ∧
        Ending m (Eval.step fuel self w m) := by
    intro w m hm
    by_cases hw : ∃ e pos, w = .statement (.returnWith e pos)
    · obtain ⟨e, pos, rfl⟩ := hw
      exact step_returnWith h fuel e pos hm
    · have hkept := Kept.step h fuel (fun e pos hs => hw ⟨e, pos, hs⟩) m hm
      exact ⟨hkept.agree, hkept.ending⟩
  exact ⟨fun w m hm => (hboth w m hm).1, fun w m hm => (hboth w m hm).2⟩

/-- A `return` comes out of a step if the step is the statement `return`, or if it comes out of the
work inside. -/
theorem source_of_step (h : Trusted self other) (fuel : Nat) {w : Work} {m m' : Machine}
    (hm : m.Sound) {pos : Position} (hret : step fuel self w m = .error (.returned pos) m') :
    (∃ e v m₁, w = .statement (.returnWith e pos) ∧ self (.expression e) m = .ok v m₁ ∧
        m'.operands = m₁.operands.push v) ∨
      ReturnsFrom self m pos m' := by
  by_cases hw : ∃ e pos, w = .statement (.returnWith e pos)
  · obtain ⟨e, pos', rfl⟩ := hw
    dsimp only [step] at hret
    rw [runStatement_returnWith] at hret
    cases he : self (.expression e) m with
    | ok v m₁ =>
      rw [he] at hret
      cases hret
      exact .inl ⟨e, v, m₁, rfl, he, rfl⟩
    | error i m₁ =>
      rw [he] at hret
      cases hret
      exact .inr ⟨_, m, m', hm, rfl, he, rfl⟩
  · exact .inr ((Kept.step h fuel (fun e pos hs => hw ⟨e, pos, hs⟩) m hm).source pos m' hret)

/-! ## All steps -/

/-- The evaluator ends as promised. -/
theorem run_trusted (n : Nat) : Trusted (run n) (run n) := by
  induction n with
  | zero => exact ⟨fun _ _ _ => rfl, fun _ _ _ => trivial⟩
  | succ n ih => exact ih.step n

/-! ## The work inside -/

/-- Doing `w` from `m` involves work of the kind `P`: what comes out depends on what such work does. -/
def Uses (n : Nat) (w : Work) (m : Machine) (P : Work → Machine → Prop) : Prop :=
  ∃ other : Work → Eval Value, (∀ w' m', ¬ P w' m' → other w' m' = run n w' m') ∧
    step n other w m ≠ run (n + 1) w m

/-- Some of the work that is involved is done from a sound machine. -/
theorem Uses.exists_sound {n : Nat} {w : Work} {m : Machine} {P : Work → Machine → Prop}
    (h : Uses n w m P) (hm : m.Sound) : ∃ w' m', P w' m' ∧ m'.Sound := by
  obtain ⟨other, hother, hne⟩ := h
  by_contra hnone
  -- work from sound machines is then done as usual, and there is no other work
  have htrusted : Trusted (run n) other := by
    refine ⟨fun w' m' hm' => ?_, (run_trusted n).ending⟩
    exact (hother w' m' fun hP => hnone ⟨w', m', hP, hm'⟩).symm
  exact hne ((htrusted.step n).agree w m hm).symm

open Classical in
/-- Does work in the given way, except that some pieces of it are cut off. -/
noncomputable def refusing (P : Work → Machine → Prop) (doing : Work → Eval Value) :
    Work → Eval Value := fun w m =>
  if P w m then .error .exhausted m else doing w m

/-- What is not cut off is not refused. -/
theorem of_refusing {P : Work → Machine → Prop} {doing : Work → Eval Value} {w : Work}
    {m : Machine} {r : EStateM.Result Interruption Machine Value}
    (h : refusing P doing w m = r) (hr : r ≠ .error .exhausted m) : ¬ P w m ∧ doing w m = r := by
  unfold refusing at h
  split at h
  · exact absurd h.symm hr
  · rename_i hP
    exact ⟨hP, h⟩

/-- Cutting off some pieces of trusted work leaves work that can be trusted. -/
theorem trusted_refusing (P : Work → Machine → Prop) (n : Nat) :
    Trusted (refusing P (run n)) (refusing P (run n)) := by
  refine ⟨fun _ _ _ => rfl, fun w m hm => ?_⟩
  unfold refusing
  split
  · trivial
  · exact (run_trusted n).ending w m hm

/-- Work that is not involved can be cut off without any change. -/
theorem step_refusing {n : Nat} {w : Work} {m : Machine} {P : Work → Machine → Prop}
    (h : ¬ Uses n w m P) : step n (refusing P (run n)) w m = run (n + 1) w m := by
  by_contra hne
  refine h ⟨refusing P (run n), fun w' m' hP => ?_, hne⟩
  exact if_neg hP

/-- Doing `w` from `m` ends with the `return` at `pos`, which leaves `v` on top of the operands.  It is
either `w` itself that returns the value of its expression, or it is work inside `w` that returns
`v`, and that was done with the operands of `m`. -/
def Returns : Nat → Work → Machine → Position → Value → Prop
  | 0, _, _, _, _ => False
  | n + 1, w, m, pos, v =>
    (∃ m', run (n + 1) w m = .error (.returned pos) m' ∧ m'.operands = m.operands.push v) ∧
      ((∃ e m₁, w = .statement (.returnWith e pos) ∧ run n (.expression e) m = .ok v m₁) ∨
        Uses n w m fun w' m' => m'.operands = m.operands ∧ Returns n w' m' pos v)

/-- Every `return` goes back to a statement `return`, whose value it leaves on top. -/
theorem returns_of_run {n : Nat} {w : Work} {m m' : Machine} (hm : m.Sound) {pos : Position}
    (h : run n w m = .error (.returned pos) m') :
    ∃ v, m'.operands = m.operands.push v ∧ Returns n w m pos v := by
  induction n generalizing w m m' with
  | zero => cases h
  | succ n ih =>
    have hend := (run_trusted (n + 1)).ending w m hm
    rw [h] at hend
    obtain ⟨-, -, v, hv⟩ := hend
    refine ⟨v, hv, ⟨m', h, hv⟩, ?_⟩
    by_contra hnot
    obtain ⟨hself, hinside⟩ := not_or.mp hnot
    -- the pieces of work that return `v` are not involved, so they may as well be cut off
    have hstep := (step_refusing hinside).trans h
    rcases source_of_step (trusted_refusing _ n) n hm hstep with
      ⟨e, v', m₁, rfl, he, hops⟩ | ⟨w₁, m₁, m₂, hm₁, hops₁, hw₁, hops₂⟩
    · obtain ⟨-, hrun⟩ := of_refusing he (by simp)
      have hend := (run_trusted n).ending (.expression e) m hm
      rw [hrun] at hend
      obtain ⟨-, -, ho⟩ := hend
      rw [hv, ho] at hops
      obtain rfl := Operands.push_injective hops
      exact hself ⟨e, m₁, rfl, hrun⟩
    · -- but then the `return` comes out of a piece of work that does return `v`
      obtain ⟨hP, hrun⟩ := of_refusing hw₁ (by simp)
      obtain ⟨v', hv', hret⟩ := ih hm₁ hrun
      rw [hops₂, hv, hops₁] at hv'
      obtain rfl := Operands.push_injective hv'
      exact hP ⟨hops₁, hret⟩

end Eval

end ProtoScript
