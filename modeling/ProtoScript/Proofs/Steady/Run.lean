import ProtoScript.Proofs.Evaluation.Run
import ProtoScript.Proofs.Steady.Phrase

/-!
# Whole runs from steady machines

One step of the evaluator settles if the work inside it is safe.  For whole runs, `KeepsCore n w m` says
that the core variables hold the core types throughout a piece of work: before it, after it, and
throughout all the work that it involves.  Then the work that does not keep them may as well be cut off,
with whatever interruption; and since it would have to come out as that very interruption, nothing was
cut off.  So the work lands, and all the work that it involves starts from steady machines too.
-/

namespace ProtoScript

namespace Eval

variable {cut : Interruption} {m : Machine} {self other : Work → Eval Value}

/-! ## One step -/

/-- Calling a value is safe. -/
theorem SafeAt.callValue (h : Reliable cut self other) (hm : m.Steady) (fuel : Nat) {function : Value}
    (hfunction : m.heap.Has function) {receiver : Option ObjectRef}
    (hreceiver : ∀ o, receiver = some o → m.heap.Has (.object o)) {arguments : List Value}
    (harguments : ∀ v ∈ arguments, m.heap.Has v) (pos : Position) :
    SafeAt cut m (Eval.call fuel self function receiver arguments pos)
      (Eval.call fuel other function receiver arguments pos) Present := by
  have hother : SafeAt cut m (Eval.callOther self function receiver arguments pos)
      (Eval.callOther other function receiver arguments pos) Present :=
    callOther h hm hfunction hreceiver harguments pos
  cases function with
  | native n => exact callNative h hm fuel n ⟨hreceiver, harguments⟩
  | procedure p => exact callProcedure h hm p hreceiver harguments pos
  | _ => exact hother

/-- A piece of work settles if the work inside it is safe. -/
theorem SettlesAt.step (h : Reliable cut self other) (hm : m.Steady) (fuel : Nat) {w : Work}
    (hw : w.Within m.heap) : SettlesAt cut m (Eval.step fuel self w) (Eval.step fuel other w) := by
  cases w with
  | statement s => exact (SafeAt.runStatement h hm fuel s).settles
  | expression e =>
    by_cases he : ∃ name pos' value pos, e = .assign (.variable name pos') value pos
    · obtain ⟨name, pos', value, pos, rfl⟩ := he
      exact assign_variable h hm name pos' value pos
    · refine (SafeAt.evaluate h hm fun name pos' value pos heq => ?_).settles
      exact he ⟨name, pos', value, pos, heq⟩
  | call function receiver arguments pos =>
    obtain ⟨hfunction, hreceiver, harguments⟩ := hw
    exact (SafeAt.callValue h hm fuel hfunction hreceiver harguments pos).settles

/-! ## All steps -/

/-- The core variables hold the core types throughout a piece of work: before it, after it, and
throughout the work that it involves. -/
def KeepsCore : Nat → Work → Machine → Prop
  | 0, _, m => m.KeepsCore
  | n + 1, w, m => m.KeepsCore ∧ (ended (run (n + 1) w m)).KeepsCore ∧
      ¬ Uses n w m fun w' m' => ¬ KeepsCore n w' m'

open Classical in
/-- Does work as usual, but cuts off what does not keep the core types. -/
noncomputable def cutting (cut : Interruption) (n : Nat) : Work → Eval Value := fun w m =>
  if KeepsCore n w m then run n w m else .error cut m

/-- Cutting off work that is not involved makes no difference. -/
theorem step_cutting {n : Nat} {w : Work} (cut : Interruption)
    (hkeeps : ¬ Uses n w m fun w' m' => ¬ KeepsCore n w' m') :
    step n (cutting cut n) w m = run (n + 1) w m := by
  by_contra hne
  refine hkeeps ⟨cutting cut n, fun w' m' hnot => ?_, hne⟩
  exact if_pos (not_not.mp hnot)

/-- Another way of doing work is as good as usual, where work is done that keeps the core types. -/
def Alike (n : Nat) (other : Work → Eval Value) : Prop :=
  ∀ w m, m.Steady → w.Within m.heap → KeepsCore n w m → other w m = run n w m

/-- If all work that keeps the core types lands, a step that involves nothing else lands, in whichever
way that work is done. -/
theorem step_of_keeps {n : Nat}
    (ih : ∀ w m, m.Steady → w.Within m.heap → KeepsCore n w m → Lands m Present (run n w m))
    {w : Work} (hm : m.Steady) (hw : w.Within m.heap)
    (hkeeps : ¬ Uses n w m fun w' m' => ¬ KeepsCore n w' m') (hother : Alike n other) :
    run (n + 1) w m = step n other w m ∧
      ((ended (run (n + 1) w m)).KeepsCore → Lands m Present (run (n + 1) w m)) := by
  have hsettles (cut : Interruption) (hcut : cut.IsFinal) :
      (run (n + 1) w m = step n other w m ∧
        ((ended (run (n + 1) w m)).KeepsCore → Lands m Present (run (n + 1) w m))) ∨
      ∃ m', run (n + 1) w m = .error cut m' := by
    have hreliable : Reliable cut (cutting cut n) other := by
      refine ⟨hcut, fun w' m' hm' hw' => ?_⟩
      by_cases hcore : KeepsCore n w' m'
      · have hrun : cutting cut n w' m' = run n w' m' := if_pos hcore
        refine .inl ⟨hrun.trans (hother w' m' hm' hw' hcore).symm, ?_⟩
        rw [hrun]
        exact ih w' m' hm' hw' hcore
      · exact .inr ⟨m', if_neg hcore⟩
    have hstep := SettlesAt.step hreliable hm n hw
    unfold SettlesAt at hstep
    rw [step_cutting cut hkeeps] at hstep
    exact hstep
  -- the work did not end with both of two interruptions
  rcases hsettles .exhausted trivial with hdone | ⟨m₁, hm₁⟩
  · exact hdone
  · rcases hsettles (.exited 0) trivial with hdone | ⟨m₂, hm₂⟩
    · exact hdone
    · rw [hm₁] at hm₂
      cases hm₂

/-- Work that keeps the core types lands. -/
theorem lands_run {n : Nat} {w : Work} (hm : m.Steady) (hw : w.Within m.heap)
    (hkeeps : KeepsCore n w m) : Lands m Present (run n w m) := by
  induction n generalizing w m with
  | zero => exact .refl hm
  | succ n ih =>
    obtain ⟨-, hend, hinside⟩ := hkeeps
    have halike : Alike n (run n) := fun _ _ _ _ _ => rfl
    exact (step_of_keeps (fun _ _ => ih) hm hw hinside halike).2 hend

/-- All work that is involved starts from a steady machine, and keeps the core types too. -/
theorem starts_steady {n : Nat} {w w₁ : Work} {m₁ : Machine} (hm : m.Steady) (hw : w.Within m.heap)
    (hkeeps : KeepsCore (n + 1) w m) (huses : Uses n w m fun w' m' => w' = w₁ ∧ m' = m₁) :
    m₁.Steady ∧ w₁.Within m₁.heap ∧ KeepsCore n w₁ m₁ := by
  obtain ⟨-, -, hinside⟩ := hkeeps
  obtain ⟨other, hother, hne⟩ := huses
  by_contra hnot
  have halike : Alike n other := by
    intro w' m' hm' hw' hkeeps'
    refine hother w' m' fun ⟨hsame, hsame'⟩ => hnot ?_
    subst hsame hsame'
    exact ⟨hm', hw', hkeeps'⟩
  exact hne (step_of_keeps (fun _ _ => lands_run) hm hw hinside halike).1.symm

/-! ## The machines that are met -/

/-- The machines that are met in a piece of work: before it, after it, and in the work that it
involves. -/
inductive Meets : Nat → Work → Machine → Machine → Prop where
  | before (n : Nat) (w : Work) (m : Machine) : Meets n w m m
  | after (n : Nat) (w : Work) (m : Machine) : Meets n w m (ended (run n w m))
  | inside {n : Nat} {w w₁ : Work} {m m₁ m' : Machine}
    (huses : Uses n w m fun w' m' => w' = w₁ ∧ m' = m₁) (h : Meets n w₁ m₁ m') :
    Meets (n + 1) w m m'

/-- Whatever a computation ends with, the machine leads on. -/
theorem Lands.leads_ended {α : Type} {Q : α → Machine → Prop}
    {r : EStateM.Result Interruption Machine α} (hr : Lands m Q r) : m.Leads (ended r) := by
  cases r with
  | ok a m' => exact hr.1
  | error e m' => exact hr

/-- All machines that are met in work that keeps the core types are steady. -/
theorem Meets.is_steady {n : Nat} {w : Work} {m' : Machine} (h : Meets n w m m') (hm : m.Steady)
    (hw : w.Within m.heap) (hkeeps : KeepsCore n w m) : m'.Steady := by
  induction h with
  | before n w m => exact hm
  | after n w m => exact (lands_run hm hw hkeeps).leads_ended.is_steady
  | inside huses _ ih =>
    obtain ⟨hm₁, hw₁, hkeeps₁⟩ := starts_steady hm hw hkeeps huses
    exact ih hm₁ hw₁ hkeeps₁

end Eval

end ProtoScript
