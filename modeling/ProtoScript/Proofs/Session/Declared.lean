import ProtoScript.Proofs.Steady.Fresh
import ProtoScript.Proofs.Steady.Run

/-!
# Declared types are never violated

A session is undisturbed if the core variables hold the core types throughout all of its statements.
`Session.Visits m` says that a machine is met somewhere in an undisturbed session: between two
statements, or when a piece of work begins or ends inside a statement, at any depth, be it work of the
program itself, of a file that it imports or of a macro that it expands.  All such machines are steady, so
a variable that was declared with a nominal type holds nothing but values of that type.
-/

namespace ProtoScript

namespace Session

open Eval (SafeAt Present Anything)

/-- The core variables hold the core types throughout a statement of a session. -/
def KeepsCore (n : Nat) (s : Statement) (m : Machine) : Prop :=
  Eval.KeepsCore n (.statement s) { m with raised := [] }

/-- The machines between the statements of undisturbed sessions. -/
inductive Undisturbed : Machine → Prop where
  /-- A session starts. -/
  | fresh (file : String) (host : Host) (natives : List Native) :
    Undisturbed (Machine.fresh file host natives)
  /-- A program is read and loaded. -/
  | loaded {m m' : Machine} {n : Nat} {file : String} {imports : List String} {source : String}
    {r : Except (List Diagnostic) (List Statement)} (h : Undisturbed m)
    (hs : readAndLoad n file imports source m = .ok r m') : Undisturbed m'
  /-- A statement comes to its end. -/
  | executed {m m' : Machine} {n : Nat} {s : Statement} {r : Except (List Diagnostic) Value}
    (h : Undisturbed m) (hkeeps : KeepsCore n s m) (hs : execute n s m = .ok r m') : Undisturbed m'

/-- The machines that are met in undisturbed sessions. -/
inductive Visits : Machine → Prop where
  | between {m : Machine} (h : Undisturbed m) : Visits m
  | during {m m' : Machine} {n : Nat} {s : Statement} (h : Undisturbed m) (hkeeps : KeepsCore n s m)
    (hmeets : Eval.Meets n (.statement s) { m with raised := [] } m') : Visits m'

/-! ## Visited machines are steady -/

/-- What a session observes leaves a steady machine behind. -/
theorem leads_of_observe {α : Type} {x : Eval α} {Q : α → Machine → Prop} {m m' : Machine}
    {r : Except Interruption α} (hx : SafeAt .exhausted m x x Q) (h : observe x m = .ok r m') :
    m.Leads m' := by
  unfold observe at h
  rcases hx with ⟨-, hlands⟩ | ⟨m₁, hcut⟩
  · match hres : x m with
    | .ok a m₁ =>
      rw [hres] at h hlands
      cases h
      exact hlands.1
    | .error (.raised d) m₁ =>
      rw [hres] at h hlands
      cases h
      exact hlands
    | .error (.returned pos) m₁ =>
      rw [hres] at h hlands
      cases h
      exact hlands
    | .error (.exited code) m₁ =>
      rw [hres] at h
      cases h
    | .error (.awaiting q) m₁ =>
      rw [hres] at h
      cases h
    | .error .exhausted m₁ =>
      rw [hres] at h
      cases h
  · rw [hcut] at h
    cases h

/-- Reading a program leaves a steady machine. -/
theorem leads_of_readAndLoad {n : Nat} {file : String} {imports : List String} {source : String}
    {m m' : Machine} {r : Except (List Diagnostic) (List Statement)} (hm : m.Steady)
    (h : readAndLoad n file imports source m = .ok r m') : m.Leads m' := by
  have hcut := Eval.Reliable.cutOff (show Interruption.exhausted.IsFinal from trivial)
  have hsafe := Eval.Routine.safe hcut hm (.readAndLoad n file imports source)
  obtain ⟨outcome, m₁, hx, hr⟩ := exists_of_bind h
  have hl := leads_of_observe hsafe hx
  cases outcome <;> cases hr <;> exact hl

/-- A `return` that leaves no procedure drops its value. -/
theorem safe_refuseReturn {x : Eval Value} {m : Machine} (hx : SafeAt .exhausted m x x Present) :
    SafeAt .exhausted m (refuseReturn x) (refuseReturn x) Present := by
  unfold refuseReturn
  refine hx.observe ?_ ?_ ?_
  · intro v m₁ hl₁ hv
    exact .pure hl₁.is_steady hv
  · intro e m₁ hl₁
    have hm₁ := hl₁.is_steady
    cases e with
    | returned pos =>
      have hdrop : m₁.Leads
          { m₁ with operands := (m₁.operands.pop?.map (·.2)).getD m₁.operands } := by
        refine hm₁.withOperands fun v hv => hm₁.operands v ?_
        rcases hvalues : m₁.operands.values with _ | ⟨w, ws⟩
        · simp [Operands.pop?, hvalues] at hv
        · simp only [Operands.pop?, hvalues, Option.map_some, Option.getD_some] at hv
          exact List.mem_cons_of_mem _ hv
      exact (SafeAt.modified hdrop).bind fun _ m₂ hl₂ _ => .raise hl₂.is_steady _ pos
    | _ => exact .throw hm₁ _
  · intro m₁
    exact ⟨_, rfl⟩

/-- A machine without its errors is steady too. -/
theorem leads_without_errors {m : Machine} (hm : m.Steady) : m.Leads { m with raised := [] } :=
  hm.same rfl rfl rfl

/-- A statement that keeps the core types leaves a steady machine when it comes to its end. -/
theorem steady_of_execute {n : Nat} {s : Statement} {m m' : Machine}
    {r : Except (List Diagnostic) Value} (hm : m.Steady) (hkeeps : KeepsCore n s m)
    (h : execute n s m = .ok r m') : m'.Steady := by
  have hcleared := (leads_without_errors hm).is_steady
  have hlands := Eval.lands_run hcleared (w := .statement s) trivial hkeeps
  have hsafe := safe_refuseReturn (.inl ⟨rfl, hlands⟩)
  rw [execute_apply] at h
  cases hx : observe (refuseReturn (Eval.run n (.statement s))) { m with raised := [] } with
  | error stop m₁ =>
    rw [hx] at h
    cases h
  | ok outcome m₁ =>
    have hm₁ := (leads_of_observe hsafe hx).is_steady
    rw [hx] at h
    cases outcome with
    | ok v =>
      cases h
      exact (leads_without_errors hm₁).is_steady
    | error e =>
      cases h
      have hunwound := hm₁.withOperands (s := m₁.operands.unwindTo m.operands.height) fun v hv =>
        hm₁.operands v (List.mem_of_mem_drop hv)
      exact Machine.Leads.is_steady (hunwound.is_steady.same rfl rfl rfl)

theorem Undisturbed.is_steady {m : Machine} (h : Undisturbed m) : m.Steady := by
  induction h with
  | fresh file host natives => exact Machine.fresh_steady file host natives
  | loaded _ hs ih => exact (leads_of_readAndLoad ih hs).is_steady
  | executed _ hkeeps hs ih => exact steady_of_execute ih hkeeps hs

/-- All machines that are met in an undisturbed session are steady. -/
theorem Visits.is_steady {m : Machine} (h : Visits m) : m.Steady := by
  cases h with
  | between h => exact h.is_steady
  | during h hkeeps hmeets =>
    exact hmeets.is_steady (leads_without_errors h.is_steady).is_steady trivial hkeeps

end Session

/-! ## A declaration that keeps the core types -/

namespace Eval

/-- A declaration is checked, and its variable gets its value, after its type and its value were
evaluated. -/
theorem runDeclaration_apply {self : Work → Eval Value} {d : Declaration} {te ve : Expression}
    (htype : d.type = some te) (hvalue : d.value = some ve) {m m₁ m₂ m₃ : Machine} {t : ObjectRef}
    {c : CellRef} {v : Value} (hte : self (.expression te) m = .ok (.object t) m₁)
    (ht : m₁.heap.isType t = true) (hdeclare : declare d.name (some t) d.pos m₁ = .ok c m₂)
    (hve : self (.expression ve) m₂ = .ok v m₃) :
    runDeclaration self d m =
      (do
        checkDeclared v (some t) d.pos
        settle d.name c v) m₃ := by
  have hdeclared : declaredType self d m = .ok (some t) m₁ := by
    have hevaluated : evaluateType self te m = .ok t m₁ := by
      unfold evaluateType
      rw [bind_of_ok hte, get_bind]
      simp only [ht, if_true]
      rfl
    unfold declaredType
    rw [htype]
    exact bind_of_ok hevaluated
  unfold runDeclaration
  rw [bind_of_ok hdeclared, bind_of_ok hdeclare, hvalue]
  exact bind_of_ok hve

/-- A declaration keeps the core types if its type and its value do. -/
theorem keepsCore_declare {n : Nat} {d : Declaration} {te ve : Expression}
    (htype : d.type = some te) (hvalue : d.value = some ve) {m m₁ m₂ m₃ : Machine} {t : ObjectRef}
    {c : CellRef} {v : Value} (hm : m.KeepsCore)
    (hend : (ended (run (n + 1) (.statement (.declare d)) m)).KeepsCore)
    (hte : KeepsCore n (.expression te) m) (hrunTe : run n (.expression te) m = .ok (.object t) m₁)
    (ht : m₁.heap.isType t = true) (hdeclare : declare d.name (some t) d.pos m₁ = .ok c m₂)
    (hve : KeepsCore n (.expression ve) m₂) (hrunVe : run n (.expression ve) m₂ = .ok v m₃) :
    KeepsCore (n + 1) (.statement (.declare d)) m := by
  refine ⟨hm, hend, fun ⟨other, hother, hne⟩ => hne ?_⟩
  have hotherTe := (hother _ m (not_not.mpr hte)).trans hrunTe
  have hotherVe := (hother _ m₂ (not_not.mpr hve)).trans hrunVe
  exact (runDeclaration_apply htype hvalue hotherTe ht hdeclare hotherVe).trans
    (runDeclaration_apply htype hvalue hrunTe ht hdeclare hrunVe).symm

/-- Work that changes nothing and involves no other work keeps the core types. -/
theorem keepsCore_of_alone {n : Nat} {w : Work} {m : Machine} {v : Value} (hm : m.KeepsCore)
    (hrun : run (n + 1) w m = .ok v m) (halone : ∀ other, step n other w m = .ok v m) :
    KeepsCore (n + 1) w m := by
  refine ⟨hm, ?_, fun ⟨other, _, hne⟩ => hne ((halone other).trans hrun.symm)⟩
  rw [hrun]
  exact hm

end Eval

/-! ## Declared types -/

/-- In an undisturbed session, a variable that was declared with a nominal type either was given no value
since, and is null, or holds a value that passes a check against the type right then. -/
theorem declared_types_hold {m : Machine} (hm : Session.Visits m) {c : CellRef} {d : ObjectRef}
    (htype : (m.scopes.cell c).type = some d) (hd : m.heap.IsNominal d) :
    ((m.scopes.cell c).contents = none ∧ (m.scopes.cell c).value = .null) ∨
      ∀ pos, Eval.typecheck (m.scopes.cell c).value d pos m = .ok () m := by
  have hsteady := hm.is_steady
  rcases hcontents : (m.scopes.cell c).contents with _ | v
  · refine .inl ⟨rfl, ?_⟩
    rw [Cell.value, hcontents]
    rfl
  · refine .inr fun pos => ?_
    rw [hsteady.core.typecheck_iff hsteady.closed.sides hd, Cell.value, hcontents]
    exact hsteady.honest c v d hcontents htype hd

/-- The statement `let x: Int = 5;`. -/
def Statement.letFive : Statement :=
  .declare ⟨"x", some (.variable "Int" ⟨1, 8⟩), some (.literal (.int 5) ⟨1, 14⟩), ⟨1, 1⟩⟩

set_option maxRecDepth 4000 in
/-- On a new machine, `let x: Int = 5;` keeps the core types. -/
theorem Session.keepsCore_letFive : Session.KeepsCore 2 .letFive .bare := by
  have hm := (leads_without_errors (Machine.fresh_steady "main" (.replayed []) [])).is_steady
  have hint : ∀ d, some CoreType.int.ref = some d → coreHeap.isType d = true := by
    intro d hd
    obtain rfl := Option.some.inj hd
    exact CoreType.int.isType_ref
  have hx : Machine.bare.scopes.findLocal? Scopes.root "x" = none := rfl
  have hdeclared := (hm.declared hx hint).is_steady
  -- neither the type nor the value involves other work
  have hvariable : Eval.KeepsCore 1 (.expression (.variable "Int" ⟨1, 8⟩))
      { Machine.bare with raised := [] } := Eval.keepsCore_of_alone hm.core rfl fun _ => rfl
  refine Eval.keepsCore_declare rfl rfl hm.core (fun t => ?_) hvariable rfl
    CoreType.int.isType_ref rfl (Eval.keepsCore_of_alone hdeclared.core rfl fun _ => rfl) rfl
  cases t <;> rfl

set_option maxRecDepth 4000 in
/-- After `let x: Int = 5;`, the variable has the declared type `Int`, and 5 passes a check against
it. -/
theorem declared_types_hold_five :
    ∃ m, Session.Visits m ∧ (m.scopes.cell ⟨14⟩).type = some CoreType.int.ref ∧
      m.heap.IsNominal CoreType.int.ref ∧ (m.scopes.cell ⟨14⟩).contents = some (.int 5) ∧
      ∀ pos, Eval.typecheck (m.scopes.cell ⟨14⟩).value CoreType.int.ref pos m = .ok () m := by
  obtain ⟨m, hs, htype, hd, hcontents⟩ : ∃ m,
      Session.execute 2 .letFive .bare = .ok (.ok (.int 5)) m ∧
      (m.scopes.cell ⟨14⟩).type = some CoreType.int.ref ∧
      m.heap.IsNominal CoreType.int.ref ∧ (m.scopes.cell ⟨14⟩).contents = some (.int 5) :=
    ⟨_, rfl, rfl, ⟨"Int", rfl⟩, rfl⟩
  have hvisits : Session.Visits m :=
    .between (.executed (.fresh "main" (.replayed []) []) Session.keepsCore_letFive hs)
  refine ⟨m, hvisits, htype, hd, hcontents, ?_⟩
  rcases declared_types_hold hvisits htype hd with ⟨hnone, -⟩ | hchecked
  · rw [hcontents] at hnone
    cases hnone
  · exact hchecked

end ProtoScript
