import ProtoScript.Proofs.Recording.Phrase
import ProtoScript.Proofs.Session.Discipline

/-!
# An import runs its statements as a session would

An import at top level goes on after a statement that fails, and so does a session, but the two recover
in different ways.  The import leaves the error where it was recorded, goes back to its own scope and
operands, and goes on.  The session clears the errors before each statement, takes those that the
statement recorded away afterwards, and goes back to the root scope after an error.

That both come to the same is shown statement by statement.  The machine of the import and that of the
session differ in the errors only: those that the session has collected so far are still recorded on the
machine of the import.  The evaluator is oblivious, so the next statement does the same on both, and
records the same errors.
-/

namespace ProtoScript

namespace Session

open Eval (run_oblivious run_trusted)

/-! ## The two ways to run statements -/

/-- The same result, on a machine whose errors are attributed to the given file. -/
def attributed {α : Type} (file : String) :
    EStateM.Result Stop Machine α → EStateM.Result Stop Machine α
  | .ok a m => .ok a { m with file }
  | .error stop m => .error stop { m with file }

/-- Runs a part of a session while errors are attributed to another file. -/
def inFile {α : Type} (file : String) (x : SessionM α) : SessionM α := fun m =>
  attributed m.file (x { m with file })

/-- The same result, on a machine without the errors that are left over from it; the next statement
clears them in any case. -/
def cleared {α : Type} : EStateM.Result Stop Machine α → EStateM.Result Stop Machine α
  | .ok a m => .ok a { m with raised := [] }
  | .error stop m => .error stop { m with raised := [] }

/-- No statement of a program ends with a `return` while the program is run from a machine. -/
def ReturnFree (n : Nat) : List Statement → Machine → Prop
  | [], _ => True
  | s :: ss, m =>
    (∀ pos m', Eval.run n (.statement s) { m with raised := [] } ≠ .error (.returned pos) m') ∧
      ∀ r m', execute n s m = .ok r m' → ReturnFree n ss m'

/-- What is reported for statements that ended with a value and recorded errors. -/
def reported (v : Value) (ds : List Diagnostic) : Except (List Diagnostic) Value :=
  if ds.isEmpty then .ok v else .error ds

/-- How an interruption that nothing handles stops a session. -/
def stopOf? : Interruption → Option Stop
  | .exited code => some (.exited code)
  | .awaiting q => some (.awaiting q)
  | .exhausted => some .exhausted
  | .raised _ | .returned _ => none

/-- What comes out of the statements of an import, as a session would report it. -/
def Reports : EStateM.Result Interruption Machine Value →
    EStateM.Result Stop Machine (Except (List Diagnostic) Value) → Prop
  | .ok v m, r => r = .ok (reported v m.raised) { m with raised := [] }
  | .error e m, r => ∃ stop, stopOf? e = some stop ∧ r = .error stop { m with raised := [] }

/-! ## One statement -/

/-- The errors that are there before a statement do not matter to a session. -/
theorem execute_without_errors (n : Nat) (s : Statement) (m : Machine) :
    execute n s { m with raised := [] } = execute n s m := rfl

/-- A statement that ended with a value is reported with the errors that it recorded. -/
theorem execute_of_ok {n : Nat} {s : Statement} {m m₁ : Machine} {v : Value}
    (h : Eval.run n (.statement s) { m with raised := [] } = .ok v m₁) :
    execute n s m = .ok (reported v m₁.raised) { m₁ with raised := [] } := by
  rw [execute_apply]
  unfold observe
  rw [refuseReturn_apply, h]
  dsimp only
  cases m₁.raised <;> rfl

/-- After an error, the errors of the statement are reported, and the machine is put back. -/
theorem execute_of_raised {n : Nat} {s : Statement} {m m₁ : Machine} {d : Diagnostic}
    (h : Eval.run n (.statement s) { m with raised := [] } = .error (.raised d) m₁)
    (hraised : m₁.raised ≠ []) :
    execute n s m = .ok (.error m₁.raised)
      { m₁ with
        current := Scopes.root
        operands := m₁.operands.unwindTo m.operands.height
        raised := [] } := by
  rw [execute_apply]
  unfold observe
  rw [refuseReturn_apply, h]
  dsimp only
  cases hds : m₁.raised with
  | nil => exact absurd hds hraised
  | cons d ds => rfl

/-- What stops a session stops it at once. -/
theorem execute_of_stop {n : Nat} {s : Statement} {m m₁ : Machine} {e : Interruption} {stop : Stop}
    (h : Eval.run n (.statement s) { m with raised := [] } = .error e m₁)
    (hstop : stopOf? e = some stop) : execute n s m = .error stop m₁ := by
  rw [execute_apply]
  unfold observe
  rw [refuseReturn_apply, h]
  cases e with
  | raised _ | returned _ => cases hstop
  | exited _ | awaiting _ | exhausted =>
    cases hstop
    rfl

/-- A statement `s` was run from `m`, inside an import at top level as well as in a session.  The import
goes on from `m₁`, where the errors `es` were recorded in addition; the session has reported these errors,
or `v` if there are none, and goes on from the same machine without errors. -/
structure Passes (n : Nat) (s : Statement) (m m₁ : Machine) (v : Value) (es : List Diagnostic) :
    Prop where
  is_sound : m₁.Sound
  current_eq : m₁.current = Scopes.root
  operands_eq : m₁.operands = m.operands
  raised_eq : m₁.raised = m.raised ++ es
  executed : execute n s m = .ok (reported v es) { m₁ with raised := [] }

/-- Inside an import, a statement does what it does without the errors that are recorded already, and
its own errors are recorded behind them. -/
theorem run_eq_resultAfter (n : Nat) (s : Statement) (m : Machine) :
    Eval.run n (.statement s) m =
      Eval.resultAfter m.raised (Eval.run n (.statement s) { m with raised := [] }) := by
  have hafter : ({ m with raised := [] } : Machine).after m.raised = m := by
    unfold Machine.after
    rw [List.append_nil]
  have hrun := (run_oblivious n (.statement s)).apply_after m.raised { m with raised := [] }
  rw [hafter] at hrun
  exact hrun

/-- An import and a session both go on after a statement that ended with a value. -/
theorem Passes.of_ok {n : Nat} {s : Statement} {m m₁ : Machine} {v : Value} (hm : m.Sound)
    (hroot : m.current = Scopes.root)
    (h : Eval.run n (.statement s) { m with raised := [] } = .ok v m₁) :
    Passes n s m (m₁.after m.raised) v m₁.raised := by
  have hend := (run_trusted n).ending (.statement s) m hm
  rw [run_eq_resultAfter, h] at hend
  obtain ⟨hf, hc, ho⟩ := hend
  exact ⟨hf.is_sound, hc.trans hroot, ho, rfl, execute_of_ok h⟩

/-- An import and a session both go on after an error, with the operands that there were before the
statement; no value matters then. -/
theorem Passes.of_raised {n : Nat} {s : Statement} {m m₁ : Machine} {d : Diagnostic} (hm : m.Sound)
    (h : Eval.run n (.statement s) { m with raised := [] } = .error (.raised d) m₁) (v : Value) :
    m₁.raised ≠ [] ∧
      Passes n s m
        { m₁.after m.raised with
          current := Scopes.root
          operands := m₁.operands.unwindTo m.operands.height } v m₁.raised := by
  have hend := (run_trusted n).ending (.statement s) _ (sound_without_errors hm)
  have hafter := (run_trusted n).ending (.statement s) m hm
  rw [h] at hend
  rw [run_eq_resultAfter, h] at hafter
  obtain ⟨-, ho, hd⟩ := hend
  have hraised : m₁.raised ≠ [] := List.ne_nil_of_mem hd
  have hroot_lt := lt_of_lt_of_le hm.nested.root_lt hafter.1.grown.size_le
  refine ⟨hraised, (hafter.1.move hroot_lt _).is_sound, rfl, ?_, rfl, ?_⟩
  · change m₁.operands.unwindTo m.operands.height = m.operands
    rw [ho]
    exact Operands.unwindTo_pushAll m.operands []
  · have hreported : reported v m₁.raised = .error m₁.raised := by
      cases hds : m₁.raised with
      | nil => exact absurd hds hraised
      | cons d ds => rfl
    rw [hreported]
    exact execute_of_raised h hraised

/-- What an import at top level does with a statement that does not end with a `return`: it goes on as a
session does, or both are stopped on the same machine, apart from the errors. -/
theorem runImported_cons_cases (n : Nat) (s : Statement) (ss : List Statement) (last : Value)
    {m : Machine} (hm : m.Sound) (hroot : m.current = Scopes.root)
    (hreturn : ∀ pos m',
      Eval.run n (.statement s) { m with raised := [] } ≠ .error (.returned pos) m') :
    (∃ v w m₁ es, Passes n s m m₁ v es ∧ (es = [] → w = v) ∧
      Eval.runImported (Eval.run n) Scopes.root m.operands.height last (s :: ss) m =
        Eval.runImported (Eval.run n) Scopes.root m.operands.height w ss m₁) ∨
    ∃ e stop m₁ es, stopOf? e = some stop ∧
      execute n s m = .error stop { m₁ with raised := es } ∧
      Eval.runImported (Eval.run n) Scopes.root m.operands.height last (s :: ss) m = .error e m₁ := by
  have himport := Eval.runImported_cons_apply (Eval.run n) Scopes.root m.operands.height last s ss m
  rw [run_eq_resultAfter] at himport
  cases hx : Eval.run n (.statement s) { m with raised := [] } with
  | ok v m₁ =>
    rw [hx] at himport
    exact .inl ⟨v, v, _, _, .of_ok hm hroot hx, fun _ => rfl, himport⟩
  | error e m₁ =>
    rw [hx] at himport
    cases e with
    | raised d =>
      obtain ⟨hraised, hpass⟩ := Passes.of_raised hm hx .null
      exact .inl ⟨.null, last, _, _, hpass, fun hnil => absurd hnil hraised, himport⟩
    | returned pos => exact absurd hx (hreturn pos m₁)
    | exited _ | awaiting _ | exhausted =>
      exact .inr ⟨_, _, m₁.after m.raised, m₁.raised, rfl, execute_of_stop hx rfl, himport⟩

/-! ## Several statements -/

/-- A session runs the first statement, and then the others. -/
theorem go_cons_apply (n : Nat) (last : Value) (errors : List Diagnostic) (s : Statement)
    (ss : List Statement) (m : Machine) :
    runAll.go n last errors (s :: ss) m =
      match execute n s m with
      | .ok (.ok v) m' => runAll.go n v errors ss m'
      | .ok (.error es) m' => runAll.go n last (errors ++ es) ss m'
      | .error stop m' => .error stop m' := by
  change EStateM.bind (execute n s) _ m = _
  unfold EStateM.bind
  match execute n s m with
  | .ok (.ok v) m' => rfl
  | .ok (.error es) m' => rfl
  | .error stop m' => rfl

/-- A session that has run a statement goes on with its value, or with its errors in addition. -/
theorem Passes.go_cons {n : Nat} {s : Statement} {m m₁ : Machine} {v : Value}
    {es : List Diagnostic} (h : Passes n s m m₁ v es) (last : Value) (errors : List Diagnostic)
    (ss : List Statement) :
    runAll.go n last errors (s :: ss) m =
      runAll.go n (if es.isEmpty then v else last) (errors ++ es) ss { m₁ with raised := [] } := by
  rw [go_cons_apply, h.executed]
  cases es with
  | nil =>
    rw [List.append_nil]
    rfl
  | cons e es => rfl

/-- The errors that are there before the first statement do not matter to a session. -/
theorem cleared_go_without_errors (n : Nat) (last : Value) (errors : List Diagnostic)
    (ss : List Statement) (m : Machine) :
    cleared (runAll.go n last errors ss { m with raised := [] }) =
      cleared (runAll.go n last errors ss m) := by
  cases ss with
  | nil => rfl
  | cons s ss => rw [go_cons_apply, go_cons_apply, execute_without_errors]

/-- Nor do they matter to how the statements end. -/
theorem returnFree_without_errors {n : Nat} {ss : List Statement} {m : Machine} :
    ReturnFree n ss { m with raised := [] } ↔ ReturnFree n ss m := by
  cases ss <;> rfl

/-- The value does not matter to the report if there are errors. -/
theorem reported_congr {v w : Value} {ds : List Diagnostic} (h : ds = [] → v = w) :
    reported v ds = reported w ds := by
  cases ds with
  | nil => rw [h rfl]
  | cons d ds => rfl

/-- The statements of an import at top level come to what a session makes of them that has collected the
errors which are recorded on the machine of the import.  The last values are the same as long as there
are no errors. -/
theorem reports_runImported {n : Nat} (ss : List Statement) {m : Machine} (hm : m.Sound)
    (hroot : m.current = Scopes.root) {last last' : Value} (hlast : m.raised = [] → last = last')
    (hreturn : ReturnFree n ss m) :
    Reports (Eval.runImported (Eval.run n) Scopes.root m.operands.height last ss m)
      (cleared (runAll.go n last' m.raised ss m)) := by
  induction ss generalizing m last last' with
  | nil =>
    change EStateM.Result.ok (reported last' m.raised) { m with raised := [] } =
      .ok (reported last m.raised) { m with raised := [] }
    rw [reported_congr hlast]
  | cons s ss ih =>
    obtain ⟨hs, hss⟩ := hreturn
    rcases runImported_cons_cases n s ss last hm hroot hs with
      ⟨v, w, m₁, es, hpass, hw, himport⟩ | ⟨e, stop, m₁, es, hstop, hexec, himport⟩
    · rw [himport, hpass.go_cons, cleared_go_without_errors, ← hpass.raised_eq, ← hpass.operands_eq]
      refine ih hpass.is_sound hpass.current_eq ?_
        (returnFree_without_errors.mp (hss _ _ hpass.executed))
      -- without errors so far, this statement had none either, and both go on with its value
      intro hnil
      rw [hpass.raised_eq] at hnil
      obtain rfl := (List.append_eq_nil_iff.mp hnil).2
      exact hw rfl
    · rw [himport, go_cons_apply, hexec]
      exact ⟨stop, hstop, rfl⟩

/-! ## The import itself -/

/-- It does not matter whether the file or the errors are put back first. -/
theorem cleared_attributed {α : Type} (file : String) (r : EStateM.Result Stop Machine α) :
    cleared (attributed file r) = attributed file (cleared r) := by
  cases r <;> rfl

/-- An import is run as a session runs its statements. -/
theorem cleared_execute_import {n : Nat} {path file : String} {ss : List Statement} {pos : Position}
    {m : Machine} {r : EStateM.Result Stop Machine (Except (List Diagnostic) Value)}
    (h : Reports (Eval.runImported (Eval.run n) m.current m.operands.height .null ss
      { m with raised := [], file }) r) :
    cleared (execute (n + 1) (.importFile path file ss pos) m) = attributed m.file r := by
  have hrun : Eval.run (n + 1) (.statement (.importFile path file ss pos)) { m with raised := [] } = _ :=
    Eval.runImport_apply (Eval.run n) file ss { m with raised := [] }
  cases hx : Eval.runImported (Eval.run n) m.current m.operands.height .null ss
      { m with raised := [], file } with
  | ok v m₁ =>
    rw [hx] at h hrun
    rw [execute_of_ok hrun, show r = _ from h]
    rfl
  | error e m₁ =>
    rw [hx] at h hrun
    obtain ⟨stop, hstop, rfl⟩ := h
    rw [execute_of_stop hrun hstop]
    rfl

/-- An import at top level does what running its statements does while errors are attributed to the
imported file: it shows the same, leaves the same machine, and yields the value of the last statement
or, if any of them failed, all the errors in order.  The statements of the import are work inside a
statement, which is why it may nest one level deeper. -/
theorem execute_import {m : Machine} (hm : Reachable m) (hroot : m.current = Scopes.root) (n : Nat)
    (path file : String) (ss : List Statement) (pos : Position)
    (hreturn : ReturnFree n ss { m with file }) :
    cleared (execute (n + 1) (.importFile path file ss pos) m) =
      cleared (inFile file (runAll n ss) m) := by
  have hsound : ({ m with raised := [], file } : Machine).Sound :=
    ⟨hm.is_sound.nested, hm.is_sound.current_lt, fun _ hd => absurd hd List.not_mem_nil⟩
  have hgo : cleared (runAll n ss { m with file }) =
      cleared (runAll.go n .null [] ss { m with raised := [], file }) :=
    (cleared_go_without_errors n .null [] ss { m with file }).symm
  have hreports := reports_runImported ss hsound hroot (fun _ => Eq.refl Value.null)
    (returnFree_without_errors.mpr hreturn)
  rw [← hroot] at hreports
  unfold inFile
  rw [cleared_execute_import hreports, cleared_attributed, hgo]

/-- The statements `7; import "deep"; y; 9;`, where the imported file holds `x; 8;`. -/
def partlyFailing : List Statement :=
  [.expression (.literal (.int 7) ⟨1, 1⟩),
    .importFile "deep" "deep"
      [.expression (.variable "x" ⟨1, 1⟩), .expression (.literal (.int 8) ⟨1, 4⟩)] ⟨1, 4⟩,
    .expression (.variable "y" ⟨1, 20⟩),
    .expression (.literal (.int 9) ⟨1, 23⟩)]

set_option maxRecDepth 4000 in
/-- On a new machine, importing these statements reports the error of the nested import and then that of
the import itself, and so does running them. -/
theorem execute_import_partlyFailing :
    ReturnFree 3 partlyFailing { Machine.bare with file := "lib" } ∧
    ∃ ds m',
      execute 4 (.importFile "lib" "lib" partlyFailing ⟨1, 1⟩) .bare = .ok (.error ds) m' ∧
      ds.map (·.file) = ["deep", "lib"] ∧
      cleared (inFile "lib" (runAll 3 partlyFailing) .bare) =
        .ok (.error ds) { m' with raised := [] } := by
  have hreturn : ReturnFree 3 partlyFailing { Machine.bare with file := "lib" } := by
    refine ⟨nofun, fun _ _ h₁ => ?_⟩
    cases h₁
    refine ⟨nofun, fun _ _ h₂ => ?_⟩
    cases h₂
    refine ⟨nofun, fun _ _ h₃ => ?_⟩
    cases h₃
    exact ⟨nofun, fun _ _ _ => trivial⟩
  have heq := execute_import (.fresh "main" (.replayed []) []) rfl 3 "lib" "lib" partlyFailing
    ⟨1, 1⟩ hreturn
  exact ⟨hreturn, _, _, rfl, rfl, heq.symm⟩

end Session

end ProtoScript
