import ProtoScript.Proofs.Evaluation.Phrase
import ProtoScript.Proofs.Steady.Machine

/-!
# Computations that do not look at the errors

Errors are recorded on the machine while a program runs, but no rule of the language ever looks at what
was recorded.  `Oblivious x` says so about a computation by the way it is built: from steps that read
and quietly change other parts of the machine, from raising problems, from observing how a computation
ends and handling that, where an error is handed on as it is, and from imports, the only ones to handle
errors and to change the file that errors are attributed to.

An oblivious computation does the same whatever was recorded before, and what it records is put behind
that; this is `Oblivious.apply_after`.  So the errors of several statements that are run one after the
other are those of each of them, run by itself.
-/

namespace ProtoScript

/-- The machine on which other errors were recorded first. -/
def Machine.after (m : Machine) (ds : List Diagnostic) : Machine :=
  { m with raised := ds ++ m.raised }

namespace Eval

/-- What comes out of a computation if other errors were recorded first. -/
def resultAfter {α : Type} (ds : List Diagnostic) :
    EStateM.Result Interruption Machine α → EStateM.Result Interruption Machine α
  | .ok a m => .ok a (m.after ds)
  | .error e m => .error e (m.after ds)

/-- A change of the machine that neither looks at the recorded errors nor touches them or the file, and
that binds no name anew. -/
structure Quiet (f : Machine → Machine) : Prop where
  spares : ∀ m ds, f { m with raised := ds } = { f m with raised := ds, file := m.file }
  binds : ∀ m r name c, m.scopes.findLocal? r name = some c →
    (f m).scopes.findLocal? r name = some c

/-- A computation that is built from steps that do not look at the recorded errors. -/
inductive Oblivious : {α : Type} → Eval α → Prop where
  | pure {α : Type} (a : α) : Oblivious (Pure.pure a)
  | bind {α β : Type} {x : Eval α} {f : α → Eval β} (hx : Oblivious x)
    (hf : ∀ a, Oblivious (f a)) : Oblivious (x >>= f)
  /-- What is done with the machine does not depend on the errors. -/
  | read {α : Type} {f : Machine → Eval α} (hsame : ∀ m ds, f { m with raised := ds } = f m)
    (hf : ∀ m, Oblivious (f m)) : Oblivious (MonadState.get >>= f)
  | change {α : Type} {f : Machine → α × Machine}
    (hvalue : ∀ m ds, (f { m with raised := ds }).1 = (f m).1)
    (hquiet : Quiet fun m => (f m).2) : Oblivious (modifyGet f)
  | raise {α : Type} (p : Problem) (pos : Position) : Oblivious (Eval.raise p pos : Eval α)
  /-- A computation may stop in any other way than with an error. -/
  | stop {α : Type} {e : Interruption} (he : ∀ d, e ≠ .raised d) : Oblivious (throw e : Eval α)
  /-- Some interruptions are handled, and the others are handed on; errors are among these. -/
  | recover {α β : Type} {x : Eval α} {f : Except Interruption α → Eval β}
    (handled : Interruption → Prop) (hraised : ∀ d, ¬ handled (.raised d)) (hx : Oblivious x)
    (hok : ∀ a, Oblivious (f (.ok a))) (hhandled : ∀ e, handled e → Oblivious (f (.error e)))
    (hrest : ∀ e, ¬ handled e → ∃ g, Quiet g ∧ ∀ m, f (.error e) m = .error e (g m)) :
    Oblivious (observe x >>= f)
  | imported {self : Work → Eval Value} (h : ∀ s, Oblivious (self (.statement s))) (file : String)
    (ss : List Statement) : Oblivious (runImport self file ss)

/-- A quiet change leaves the errors as they are. -/
theorem Quiet.raised_eq {f : Machine → Machine} (hf : Quiet f) (m : Machine) :
    (f m).raised = m.raised := by
  have hsame : f m = { f m with raised := m.raised, file := m.file } := hf.spares m m.raised
  rw [hsame]

/-- A quiet change leaves the file as it is. -/
theorem Quiet.file_eq {f : Machine → Machine} (hf : Quiet f) (m : Machine) :
    (f m).file = m.file := by
  have hsame : f m = { f m with raised := m.raised, file := m.file } := hf.spares m m.raised
  rw [hsame]

/-- A change that leaves the scopes alone, and does not look at the errors or touch them or the file. -/
theorem Quiet.of_scopes {f : Machine → Machine}
    (hf : ∀ m ds,
      f { m with raised := ds } = { f m with raised := ds, file := m.file, scopes := m.scopes }) :
    Quiet f := by
  have hscopes (m : Machine) : (f m).scopes = m.scopes := by
    have hsame : f m = { f m with raised := m.raised, file := m.file, scopes := m.scopes } :=
      hf m m.raised
    rw [hsame]
  refine ⟨fun m ds => ?_, fun m r name c hc => ?_⟩
  · rw [hf m ds, ← hscopes m]
  · rw [hscopes m]
    exact hc

/-- A quiet change may as well be made after errors were recorded. -/
theorem Quiet.apply_after {f : Machine → Machine} (hf : Quiet f) (m : Machine)
    (ds : List Diagnostic) : f (m.after ds) = (f m).after ds := by
  unfold Machine.after
  rw [hf.raised_eq m, hf.spares m, ← hf.file_eq m]

/-- Running two steps after other errors were recorded. -/
theorem bind_after {α β : Type} {x : Eval α} {f : α → Eval β} {m : Machine} {ds : List Diagnostic}
    (hx : x (m.after ds) = resultAfter ds (x m))
    (hf : ∀ a m', f a (m'.after ds) = resultAfter ds (f a m')) :
    (x >>= f) (m.after ds) = resultAfter ds ((x >>= f) m) := by
  rw [bind_apply, bind_apply, hx]
  cases x m with
  | ok a m' => exact hf a m'
  | error e m' => rfl

/-- The statements of an import do the same after other errors were recorded, if each of them does. -/
theorem runImported_after {self : Work → Eval Value} {ds : List Diagnostic}
    (h : ∀ s m, self (.statement s) (m.after ds) = resultAfter ds (self (.statement s) m))
    (scope : ScopeRef) (height : Nat) (ss : List Statement) (last : Value) (m : Machine) :
    runImported self scope height last ss (m.after ds) =
      resultAfter ds (runImported self scope height last ss m) := by
  induction ss generalizing last m with
  | nil => rfl
  | cons s ss ih =>
    rw [runImported_cons_apply, runImported_cons_apply, h s m]
    match self (.statement s) m with
    | .ok v m' => exact ih v m'
    | .error (.raised _) m' =>
      exact ih last { m' with current := scope, operands := m'.operands.unwindTo height }
    | .error (.returned _) m' => rfl
    | .error (.exited _) m' => rfl
    | .error (.awaiting _) m' => rfl
    | .error .exhausted m' => rfl

/-- An oblivious computation does the same after other errors were recorded, and what it records is
put behind them. -/
theorem Oblivious.apply_after {α : Type} {x : Eval α} (h : Oblivious x) (ds : List Diagnostic)
    (m : Machine) : x (m.after ds) = resultAfter ds (x m) := by
  induction h generalizing m with
  | pure a => rfl
  | bind _ _ ihx ihf => exact bind_after (ihx m) ihf
  | @read _ f hsame _ ihf =>
    -- both read the same next step, and take it from their own machines
    rw [get_bind, get_bind, show f (m.after ds) = f m from hsame m _]
    exact ihf m m
  | @change _ f hvalue hquiet =>
    change EStateM.Result.ok (f (m.after ds)).1 (f (m.after ds)).2 =
      EStateM.Result.ok (f m).1 ((f m).2.after ds)
    rw [show (f (m.after ds)).1 = (f m).1 from hvalue m _,
      show (f (m.after ds)).2 = (f m).2.after ds from hquiet.apply_after m ds]
  | raise p pos =>
    rw [raise_apply, raise_apply]
    change EStateM.Result.error _ { m with raised := (ds ++ m.raised) ++ [_] } =
      EStateM.Result.error _ { m with raised := ds ++ (m.raised ++ [_]) }
    rw [List.append_assoc]
    rfl
  | stop _ => rfl
  | @recover _ _ x f handled _ _ _ _ hrest ihx ihok ihhandled =>
    refine bind_after ?_ ?_
    · unfold observe
      rw [ihx m]
      cases x m <;> rfl
    · intro outcome m'
      cases outcome with
      | ok a => exact ihok a m'
      | error e =>
        by_cases he : handled e
        · exact ihhandled e he m'
        · -- what is handed on has been recorded already, so only the machine is touched
          obtain ⟨g, hg, happ⟩ := hrest e he
          rw [happ, happ, hg.apply_after]
          rfl
  | @imported self _ file ss ih =>
    have hinside : runImported self (m.after ds).current (m.after ds).operands.height .null ss
        { m.after ds with file } =
          resultAfter ds (runImported self m.current m.operands.height .null ss { m with file }) :=
      runImported_after ih m.current m.operands.height ss .null { m with file }
    rw [runImport_apply, runImport_apply, hinside]
    cases runImported self m.current m.operands.height .null ss { m with file } <;> rfl

namespace Oblivious

variable {α β : Type}

/-! ## Changes and choices -/

/-- Changing the machine quietly is oblivious. -/
theorem update {f : Machine → Machine} (hf : Quiet f) : Oblivious (modify f : Eval Unit) :=
  .change (fun _ _ => rfl) hf

/-- Changing neither errors, file nor scopes is oblivious. -/
theorem updateRest {f : Machine → Machine}
    (hf : ∀ m ds,
      f { m with raised := ds } = { f m with raised := ds, file := m.file, scopes := m.scopes }) :
    Oblivious (modify f : Eval Unit) :=
  update (.of_scopes hf)

/-- A function of the result does not look at the errors. -/
theorem map {x : Eval α} (f : α → β) (hx : Oblivious x) : Oblivious (f <$> x) := by
  have hmap : f <$> x = x >>= fun a => Pure.pure (f a) := by
    funext m
    rw [bind_apply]
    change EStateM.map f x m = _
    unfold EStateM.map
    cases x m <;> rfl
  rw [hmap]
  exact hx.bind fun a => .pure (f a)

/-- Forgetting a result is oblivious. -/
theorem discard {x : Eval α} (hx : Oblivious x) : Oblivious (Functor.discard x) :=
  hx.map _

/-- A choice is oblivious if both sides are. -/
theorem ite {c : Prop} [Decidable c] {x y : Eval α} (hx : Oblivious x) (hy : Oblivious y) :
    Oblivious (if c then x else y) := by
  split
  · exact hx
  · exact hy

/-- Being cut off is oblivious. -/
theorem exhausted : Oblivious (throw .exhausted : Eval α) :=
  .stop nofun

/-- A loop is oblivious if its condition and its body are. -/
theorem whileTrue {condition : Eval Bool} {body : Eval Unit} (hc : Oblivious condition)
    (hb : Oblivious body) (fuel : Nat) : Oblivious (Eval.whileTrue condition body fuel) := by
  induction fuel with
  | zero => exact .exhausted
  | succ fuel ih => exact hc.bind fun _ => .ite (hb.bind fun _ => ih) (.pure _)

/-! ## The heap -/

/-- Changing the heap is oblivious. -/
theorem modifyHeap (f : Heap → Heap) : Oblivious (Eval.modifyHeap f) :=
  updateRest fun _ _ => rfl

/-- Adding something to the heap is oblivious. -/
theorem withHeap (f : Heap → α × Heap) : Oblivious (Eval.withHeap f) :=
  .change (fun _ _ => rfl) (.of_scopes fun _ _ => rfl)

/-- Making an array is oblivious. -/
theorem newArray (elements : List Value) : Oblivious (Eval.newArray elements) :=
  (withHeap _).bind fun _ => .pure _

/-- Checking a value against a type is oblivious. -/
theorem typecheck (v : Value) (declared : ObjectRef) (pos : Position) :
    Oblivious (Eval.typecheck v declared pos) := by
  unfold Eval.typecheck
  refine .read (fun _ _ => rfl) fun m => ?_
  split
  · exact .raise _ pos
  · exact .ite (.pure _) (.raise _ pos)

/-! ## Scopes and operands -/

/-- Opening a scope is oblivious. -/
theorem openScope : Oblivious Eval.openScope := by
  refine update ⟨fun _ _ => rfl, fun m r name c hc => ?_⟩
  exact (m.scopes.findLocal?_addChild m.current (Scopes.lt_of_findLocal? hc) name).trans hc

/-- Closing a scope changes nothing but the current scope. -/
theorem closeScope_eq (pos : Position) : Eval.closeScope pos = MonadState.get >>= fun m =>
    if m.current = Scopes.root then Eval.raise .rootScopeClosed pos
    else
      match m.scopes.parent? m.current with
      | some current => modify fun m => { m with current }
      | none => Eval.raise .rootScopeClosed pos := by
  funext m
  unfold Eval.closeScope
  rw [get_bind, get_bind]
  by_cases hroot : m.current = Scopes.root
  · rw [if_pos hroot, if_pos hroot]
  · rw [if_neg hroot, if_neg hroot]
    cases m.scopes.parent? m.current <;> rfl

/-- Closing a scope is oblivious. -/
theorem closeScope (pos : Position) : Oblivious (Eval.closeScope pos) := by
  rw [closeScope_eq]
  refine .read (fun _ _ => rfl) fun m => .ite (.raise _ pos) ?_
  split
  · exact updateRest fun _ _ => rfl
  · exact .raise _ pos

/-- Closing several scopes is oblivious. -/
theorem closeUntil (target : ScopeRef) (pos : Position) (fuel : Nat) :
    Oblivious (Eval.closeUntil target pos fuel) := by
  induction fuel with
  | zero => exact .pure ()
  | succ fuel ih =>
    exact .read (fun _ _ => rfl) fun _ => .ite (.pure ()) ((closeScope pos).bind fun _ => ih)

/-- Putting a value into a cell is oblivious. -/
theorem putCell (c : CellRef) (v : Value) : Oblivious (Eval.putCell c v) :=
  update ⟨fun _ _ => rfl, fun _ _ _ _ hc => hc⟩

/-- Pushing an operand is oblivious. -/
theorem pushOperand (v : Value) : Oblivious (Eval.pushOperand v) :=
  updateRest fun _ _ => rfl

/-- Popping an operand changes nothing but the operands. -/
theorem popOperand_eq (pos : Position) : Eval.popOperand pos = MonadState.get >>= fun m =>
    match m.operands.pop? with
    | some (v, operands) => (do modify fun m => { m with operands }; return v)
    | none => Eval.raise .operandsExhausted pos := by
  funext m
  unfold Eval.popOperand
  rw [get_bind, get_bind]
  cases m.operands.pop? <;> rfl

/-- Popping an operand is oblivious. -/
theorem popOperand (pos : Position) : Oblivious (Eval.popOperand pos) := by
  rw [popOperand_eq]
  refine .read (fun _ _ => rfl) fun m => ?_
  split
  · exact (updateRest fun _ _ => rfl).bind fun _ => .pure _
  · exact .raise _ pos

/-- Binding a name that is free in the current scope is quiet. -/
theorem quiet_bind (name : String) (type : Option ObjectRef) :
    Quiet fun m : Machine =>
      match m.scopes.findLocal? m.current name with
      | some _ => m
      | none => { m with scopes := (m.scopes.bind m.current name type).2 } where
  spares m ds := by
    cases m.scopes.findLocal? m.current name <;> rfl
  binds m r other c hc := by
    cases hfree : m.scopes.findLocal? m.current name with
    | some _ => exact hc
    | none =>
      by_cases hname : name = other
      · have hscope : m.current ≠ r := by
          rintro rfl
          rw [hname, hc] at hfree
          cases hfree
        exact (m.scopes.findLocal?_bind_of_scope_ne name other type hscope).trans hc
      · exact (m.scopes.findLocal?_bind_of_ne m.current r type hname).trans hc

/-- Declaring a variable is oblivious. -/
theorem declare (name : String) (type : Option ObjectRef) (pos : Position) :
    Oblivious (Eval.declare name type pos) := by
  -- the name is still free when it is bound
  have hdeclare : Eval.declare name type pos = MonadState.get >>= fun m =>
      match m.scopes.findLocal? m.current name with
      | some _ => Eval.raise (.alreadyDefined name) pos
      | none => modifyGet fun m =>
        ((m.scopes.bind m.current name type).1,
          match m.scopes.findLocal? m.current name with
          | some _ => m
          | none => { m with scopes := (m.scopes.bind m.current name type).2 }) := by
    funext m
    unfold Eval.declare
    rw [get_bind, get_bind]
    cases hfree : m.scopes.findLocal? m.current name with
    | some _ => rfl
    | none =>
      refine congrArg (EStateM.Result.ok (m.scopes.bind m.current name type).1) ?_
      rw [hfree]
      rfl
  rw [hdeclare]
  refine .read (fun _ _ => rfl) fun m => ?_
  cases m.scopes.findLocal? m.current name with
  | some _ => exact .raise _ pos
  | none => exact .change (fun _ _ => rfl) (quiet_bind name type)

end Oblivious

end Eval

end ProtoScript
